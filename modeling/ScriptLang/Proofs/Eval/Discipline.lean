import ScriptLang.Proofs.Eval.Uniform

/-!
  What every run does to the heap, proved once.

  A run changes the heap only by making scopes, declaring and assigning, and it reaches scopes only
  through the scope it runs in and the functions it finds in usable scopes.  `Discipline` bundles what
  an invariant of runs has to say about these: which heaps are good, which scopes are usable in a heap,
  which changes of the heap are allowed, and that each operation keeps to it.

  Specification: `runs_all`.  Every run of every node keeps to it, whether it ends with a value, an error,
  a fault or out of fuel.  Crux: what is known in the course of a run is the heap it has come to, and
  what is usable in a heap stays so through allowed changes.
-/

namespace ScriptLang

/-- An invariant of runs, with the facts about single operations that it rests on. -/
structure Discipline where
  /-- The heaps that runs go through. -/
  Good : Heap → Prop
  /-- The scopes that a run may use. -/
  Usable : Heap → ScopeId → Prop
  /-- The changes that a run may make to the heap. -/
  Change : Heap → Heap → Prop
  refl : ∀ h, Change h h
  trans : ∀ {h h' h''}, Change h h' → Change h' h'' → Change h h''
  usable_mono : ∀ {h h' id}, Change h h' → Usable h id → Usable h' id
  alloc : ∀ {h id}, Good h → Usable h id → Good (h.alloc (some id)).2 ∧
    Change h (h.alloc (some id)).2 ∧ Usable (h.alloc (some id)).2 h.scopes.size
  allocFunction : ∀ {h}, Good h → Good h.allocFunction.2 ∧ Change h h.allocFunction.2
  define : ∀ {h id v}, Good h → Usable h id → (∀ f ∈ v.closure?, Usable h f.scope) →
    ∀ name constant, Good (h.define id name v constant).2 ∧ Change h (h.define id name v constant).2
  assign : ∀ {h id v}, Good h → Usable h id → (∀ f ∈ v.closure?, Usable h f.scope) →
    ∀ name, Good (h.assign id name v).2 ∧ Change h (h.assign id name v).2
  get? : ∀ {h id name v}, Good h → Usable h id → h.get? id name = some v →
    ∀ f ∈ v.closure?, Usable h f.scope

namespace Discipline

variable {D : Discipline} {α β : Type} {h h' : Heap} {id : ScopeId} {v : Value}

/-- The function in the value, if there is one, was made in a usable scope. -/
def Holds (D : Discipline) (h : Heap) (v : Value) : Prop := ∀ f ∈ v.closure?, D.Usable h f.scope

theorem holds_of_none (hv : v.closure? = none) : D.Holds h v := by
  intro f hf
  rw [hv] at hf
  exact nomatch hf

theorem Holds.later (hv : D.Holds h v) (hchange : D.Change h h') : D.Holds h' v :=
  fun f hf => D.usable_mono hchange (hv f hf)

/-- How a run may end that started with the heap `h`. -/
def Ends (D : Discipline) (h : Heap) (Q : Heap → α → Prop) : EStateM.Result Halt Machine α → Prop
  | .ok a m => D.Good m.heap ∧ D.Change h m.heap ∧ Q m.heap a
  | .error _ m => D.Good m.heap ∧ D.Change h m.heap

/-- The run keeps to the discipline from every heap that comes after `h`. -/
def Keeps (D : Discipline) (h : Heap) (Q : Heap → α → Prop) (x : Eval α) : Prop :=
  ∀ m, D.Good m.heap → D.Change h m.heap → D.Ends m.heap Q (x m)

/-- A run of an expression, a statement or a call. -/
abbrev Yields (D : Discipline) (h : Heap) (x : Eval Value) : Prop := D.Keeps h D.Holds x

/-! ## Sequencing -/

section Sequencing

variable {P : Heap → α → Prop} {Q : Heap → β → Prop} {x : Eval α} {f : α → Eval β}

theorem Keeps.later (hx : D.Keeps h P x) (hchange : D.Change h h') : D.Keeps h' P x :=
  fun m hgood hm => hx m hgood (D.trans hchange hm)

theorem Keeps.mono {P' : Heap → α → Prop} (hx : D.Keeps h P x) (hP : ∀ h' a, P h' a → P' h' a) :
    D.Keeps h P' x := by
  intro m hgood hm
  have hend := hx m hgood hm
  cases hrun : x m with
  | error e m' =>
    rw [hrun] at hend
    exact hend
  | ok a m' =>
    rw [hrun] at hend
    exact ⟨hend.1, hend.2.1, hP _ a hend.2.2⟩

theorem Keeps.bind (hx : D.Keeps h P x)
    (hf : ∀ h' a, D.Change h h' → P h' a → D.Keeps h' Q (f a)) : D.Keeps h Q (x >>= f) := by
  intro m hgood hm
  have hend := hx m hgood hm
  show D.Ends m.heap Q (EStateM.bind x f m)
  unfold EStateM.bind
  cases hrun : x m with
  | error e m' =>
    rw [hrun] at hend
    exact hend
  | ok a m' =>
    rw [hrun] at hend
    obtain ⟨hgood', hchange, hP⟩ := hend
    have hnext := hf m'.heap a (D.trans hm hchange) hP m' hgood' (D.refl _)
    dsimp only
    cases hrun' : f a m' with
    | error e m'' =>
      rw [hrun'] at hnext
      exact ⟨hnext.1, D.trans hchange hnext.2⟩
    | ok b m'' =>
      rw [hrun'] at hnext
      exact ⟨hnext.1, D.trans hchange hnext.2.1, hnext.2.2⟩

theorem Keeps.pure {a : α} (ha : ∀ h', D.Change h h' → P h' a) : D.Keeps h P (Pure.pure a) :=
  fun _ hgood hm => ⟨hgood, D.refl _, ha _ hm⟩

theorem Keeps.outOfFuel : D.Keeps h P Eval.outOfFuel := fun _ hgood _ => ⟨hgood, D.refl _⟩

theorem yields_pure (hv : D.Holds h v) : D.Yields h (Pure.pure v) := Keeps.pure fun _ hm => hv.later hm

theorem yields_plain (hv : v.closure? = none) : D.Yields h (Pure.pure v) :=
  yields_pure (holds_of_none hv)

end Sequencing

/-! ## Steps on the machine -/

section Steps

open Eval

theorem newScope_keeps (hid : D.Usable h id) :
    D.Keeps h D.Usable (newScope (some id)) := by
  rintro ⟨heap, output, trace⟩ hgood hm
  exact D.alloc hgood (D.usable_mono hm hid)

theorem newFunction_keeps : D.Keeps h (fun _ _ => True) newFunction := by
  rintro ⟨heap, output, trace⟩ hgood hm
  obtain ⟨hgood', hchange⟩ := D.allocFunction hgood
  exact ⟨hgood', hchange, trivial⟩

theorem lookup?_keeps (hid : D.Usable h id) (name : String) :
    D.Keeps h (fun h' o => ∀ v ∈ o, D.Holds h' v) (lookup? id name) := by
  rintro ⟨heap, output, trace⟩ hgood hm
  exact ⟨hgood, D.refl _, fun v hv => D.get? hgood (D.usable_mono hm hid) hv⟩

theorem print_keeps (line : String) : D.Keeps h (fun _ _ => True) (print line) := by
  rintro ⟨heap, output, trace⟩ hgood hm
  exact ⟨hgood, D.refl _, trivial⟩

theorem ofExcept_keeps (r : Except Fault α) : D.Keeps h (fun _ a => r = .ok a) (ofExcept r) := by
  intro m hgood hm
  cases r with
  | ok a => exact ⟨hgood, D.refl _, rfl⟩
  | error f => exact ⟨hgood, D.refl _⟩

theorem note_keeps (settings : Settings) (level : Nat) (event : Unit → Except Fault TraceEvent) :
    D.Keeps h (fun _ _ => True) (note settings level event) := by
  rintro ⟨heap, output, trace⟩ hgood hm
  unfold note
  split
  · cases event () with
    | ok e => exact ⟨hgood, D.refl _, trivial⟩
    | error f => exact ⟨hgood, D.refl _⟩
  · exact ⟨hgood, D.refl _, trivial⟩

theorem define_keeps (hid : D.Usable h id) (hv : D.Holds h v) (name : String) (constant : Bool) :
    D.Yields h (Eval.define id name v constant) := by
  rintro ⟨heap, output, trace⟩ hgood hm
  obtain ⟨hgood', hchange⟩ := D.define hgood (D.usable_mono hm hid) (hv.later hm) name constant
  have hvalue : D.Holds (heap.define id name v constant).2 (heap.define id name v constant).1 := by
    rcases heap.define_cases id name v constant with ⟨-, heq⟩ | ⟨-, heq, -⟩
    · rw [heq]
      exact holds_of_none rfl
    · rw [heq]
      exact (hv.later hm).later hchange
  exact ⟨hgood', hchange, hvalue⟩

theorem assign_keeps (hid : D.Usable h id) (hv : D.Holds h v) (name : String) :
    D.Yields h (Eval.assign id name v) := by
  rintro ⟨heap, output, trace⟩ hgood hm
  obtain ⟨hgood', hchange⟩ := D.assign hgood (D.usable_mono hm hid) (hv.later hm) name
  have hvalue : D.Holds (heap.assign id name v).2 (heap.assign id name v).1 := by
    rcases heap.assign_cases id name v with ⟨e, heq⟩ | ⟨owner, b, -, -, heq, -⟩
    · rw [heq]
      exact holds_of_none rfl
    · rw [heq]
      exact (hv.later hm).later hchange
  exact ⟨hgood', hchange, hvalue⟩

end Steps

/-! ## All runs -/

/-- What is known at some point of a run is the heap.  All trees are run. -/
def domain (D : Discipline) : Domain where
  World := Heap
  Later := D.Change
  later_trans := D.trans
  features := .all
  budget := .unlimited
  Usable := D.Usable
  usable_later hid hchange := D.usable_mono hchange hid

theorem admits_iff : D.domain.Admits h v ↔ D.Holds h v :=
  ⟨fun hv f hf => (hv.2 f hf).1, fun hv => ⟨v.within_all, fun f hf => ⟨hv f hf, trivial⟩⟩⟩

/-- The single run as a family. -/
def uniform (D : Discipline) (settings : Settings) : Uniform Unit where
  toDomain := D.domain
  origin := ()
  settings _ := settings
  watch _ := .silent
  Noted _ := True
  Holds h _ Q x := D.Keeps h (fun h' a => Q h' fun _ => a) (x ())
  later hx hchange := hx.later hchange
  result ha := .pure ha
  chain hx hnext _ := hx.bind fun h' a hchange ha => hnext h' (fun _ => a) hchange ha
  newScope hid := (newScope_keeps hid).mono fun _ id hid => ⟨id, rfl, hid⟩
  newFunction := newFunction_keeps.mono fun _ n _ => ⟨n, rfl, trivial⟩
  lookup? hid name := (lookup?_keeps hid name).mono fun _ o ho => ⟨o, rfl, fun v hv => admits_iff.2 (ho v hv)⟩
  define hid hv name constant :=
    (define_keeps hid (admits_iff.1 hv) name constant).mono fun _ u hu => ⟨u, rfl, admits_iff.2 hu⟩
  assign hid hv name := (assign_keeps hid (admits_iff.1 hv) name).mono fun _ u hu => ⟨u, rfl, admits_iff.2 hu⟩
  print line := print_keeps line
  ofExcept {_ _ _ r} _ := (ofExcept_keeps r).mono fun _ a ha => ⟨a, rfl, ha⟩
  noted _ := trivial
  note {_ _ level event} _ _ := note_keeps settings level fun _ => event
  cut _ := .outOfFuel
  seen hx := by
    simp only [Watched.seen_silent]
    exact hx
  limit {_ depth _ f x} _ _ hx := by
    simp only [Watch.silent, pure_bind]
    by_cases hlimit : settings.callLimit ≤ depth
    · simp only [if_pos hlimit]
      exact .pure fun _ _ => ⟨_, rfl, Domain.admits_error (.recursionLimit f.displayName)⟩
    · simp only [if_neg hlimit]
      exact hx trivial

variable {settings : Settings} {fuel : Nat} {scope : ScopeId}

theorem yields_of_uniform {x : Eval Value} (hx : (D.uniform settings).Yields h fun _ => x) : D.Yields h x := by
  refine Keeps.mono hx fun h' v hv => ?_
  obtain ⟨u, hu, hadmits⟩ := hv
  obtain rfl : v = u := congrFun hu ()
  exact admits_iff.1 hadmits

/-- Runs with the given bound keep to the discipline. -/
structure Runs (D : Discipline) (settings : Settings) (fuel : Nat) : Prop where
  expr : ∀ {h scope}, D.Usable h scope → ∀ depth e, D.Yields h (evalExpr settings fuel depth scope e)
  stmt : ∀ {h scope}, D.Usable h scope → ∀ depth s, D.Yields h (evalStmt settings fuel depth scope s)
  block : ∀ {h scope}, D.Usable h scope → ∀ depth b, D.Yields h (evalBlock settings fuel depth scope b)
  apply : ∀ {h f vs}, D.Usable h f.scope → (∀ v ∈ vs, D.Holds h v) →
    ∀ depth, D.Yields h (applyFunction settings fuel depth f vs)

theorem runs_all (D : Discipline) (settings : Settings) (fuel : Nat) : D.Runs settings fuel := by
  have hcovers := (D.uniform settings).covers fuel
  have hsame := Watched.same settings fuel
  constructor
  · intro h scope hscope depth e
    rw [← hsame.expr]
    exact yields_of_uniform (hcovers.expr hscope e.within_all trivial)
  · intro h scope hscope depth s
    rw [← hsame.stmt]
    exact yields_of_uniform (hcovers.stmt hscope s.within_all trivial)
  · intro h scope hscope depth b
    rw [← hsame.block]
    exact yields_of_uniform (hcovers.block hscope b.within_all trivial)
  · intro h f vs hf hvs depth
    have hfunction : D.Holds h (.function f) := by
      rintro _ ⟨⟩
      exact hf
    rw [← hsame.apply]
    exact yields_of_uniform (hcovers.apply (admits_iff.2 hfunction) (fun v hv => admits_iff.2 (hvs v hv)) trivial)

theorem program_yields (hscope : D.Usable h scope) (p : Program) :
    D.Yields h (evalProgram settings fuel scope p) := by
  have hruns : D.Yields h (Watched.program .silent settings fuel scope p) :=
    yields_of_uniform (Uniform.program hscope p.within_all fun _ _ => trivial)
  rwa [Watched.program_silent] at hruns

theorem node_yields (hscope : D.Usable h scope) (n : Option Node) :
    D.Yields h (evalNode settings fuel scope n) := by
  unfold evalNode
  split
  · exact yields_plain rfl
  · exact program_yields hscope _
  · exact (runs_all D settings fuel).stmt hscope 0 _
  · exact (runs_all D settings fuel).expr hscope 0 _
  · exact yields_plain rfl

theorem runProgram_yields (hscope : D.Usable h scope) (p : Program) :
    D.Yields h (runProgram settings fuel scope p) := by
  have hruns : D.Yields h (Watched.runProgram .silent settings fuel scope p) :=
    yields_of_uniform (Uniform.runProgram trivial hscope p.within_all fun _ _ => trivial)
  rwa [Watched.runProgram_silent] at hruns

end Discipline

end ScriptLang
