import ScriptLang.Proofs.Eval.Trees

/-!
  Runs that come to the same values.

  Where several runs of one tree start from one machine and differ in their settings or in what watches them,
  nothing in them belongs together but what is the same: they use the same scopes, make the same functions
  and come to the same values.  Then what a logic has to know of scopes and values can be said of one of
  them.  A `Domain` says which scopes are used and which values there are.

  Specification: `Uniform.logic`, by which the walk through all trees applies.  Crux: `Domain.outcome_iff`,
  the outcomes of such runs are the values of the domain.
-/

namespace ScriptLang

variable {ι α β : Type}

/-- All runs have the same, and it has the property. -/
def Constant (P : α → Prop) (a : ι → α) : Prop := ∃ b, a = (fun _ => b) ∧ P b

/-! ## Values of one run -/

/-- The trees that are run, the scopes that are used and the values that there are.  What may be used can
    grow in the course of the runs. -/
structure Domain where
  /-- What is known of scopes at some point of the runs. -/
  World : Type
  Later : World → World → Prop
  later_trans : ∀ {w w' w''}, Later w w' → Later w' w'' → Later w w''
  features : Features
  budget : Budget
  Usable : World → ScopeId → Prop
  usable_later : ∀ {w w' id}, Usable w id → Later w w' → Usable w' id

/-- A value that runs may come to. -/
def Domain.Admits (D : Domain) (w : D.World) (v : Value) : Prop :=
  v.Within D.features ∧ ∀ f ∈ v.closure?, D.Usable w f.scope ∧ D.budget.Short f.body.height

namespace Domain

/-- The same scopes are used all the time. -/
def fixed (features : Features) (budget : Budget) (Usable : ScopeId → Prop) : Domain where
  World := Unit
  Later _ _ := True
  later_trans _ _ := trivial
  features := features
  budget := budget
  Usable _ := Usable
  usable_later h _ := h

/-- All trees, scopes and values. -/
def whole : Domain := fixed .all .unlimited fun _ => True

theorem admits_whole (w : whole.World) (v : Value) : whole.Admits w v :=
  ⟨v.within_all, fun _ _ => ⟨trivial, trivial⟩⟩

variable {D : Domain} {w : D.World} {v : Value}

theorem admits_plain (hv : v.Plain) (hallowed : v.Allowed D.features) : D.Admits w v := by
  refine ⟨hv.within hallowed, fun f hf => ?_⟩
  rw [hv.closure?_eq] at hf
  cases hf

theorem admits_error (e : RuntimeError) : D.Admits w (.error e) := admits_plain trivial nofun

theorem admits_function {f : Closure} (hf : f.Within D.features) (hscope : D.Usable w f.scope)
    (hshort : D.budget.Short f.body.height) : D.Admits w (.function f) := by
  refine ⟨hf, ?_⟩
  rintro _ ⟨⟩
  exact ⟨hscope, hshort⟩

/-! ## The values of all runs -/

/-- What belongs together is the same. -/
def frame (D : Domain) (origin : ι) : Frame ι where
  origin := origin
  World := D.World
  Later := D.Later
  later_trans := D.later_trans
  Sees w := Constant (D.Usable w)
  Owns w := Constant (D.Usable w)
  Same _ := Constant fun _ => True
  owns_sees h := h
  sees_later h hw := h.imp fun _ h => ⟨h.1, D.usable_later h.2 hw⟩
  owns_later h hw := h.imp fun _ h => ⟨h.1, D.usable_later h.2 hw⟩
  same_later h _ := h
  same_iff h h' i j := by
    obtain ⟨n, rfl, -⟩ := h
    obtain ⟨n', rfl, -⟩ := h'
    rfl
  tokens _ := id
  features := D.features
  budget := D.budget
  Stored _ := True
  stored_plain _ _ := trivial
  stored_function _ := trivial
  stored_returned _ := trivial

section Frame

variable {origin : ι}

theorem closures_iff {f : ι → Closure} :
    (D.frame origin).Closures w f ↔ Constant (fun f => D.Admits w (.function f)) f := by
  constructor
  · rintro @⟨f, _, _, hnumber, hscope, hwithin, hshort⟩
    obtain ⟨n, rfl, -⟩ := hnumber
    obtain ⟨scope, rfl, hscope⟩ := hscope
    refine ⟨{ f with id := n, scope := scope }, funext fun _ => f.copy_id n scope, ?_⟩
    exact admits_function hwithin hscope hshort
  · rintro ⟨f, rfl, hwithin, hf⟩
    obtain ⟨hscope, hshort⟩ := hf f rfl
    have hsame : f.copy id f.id f.scope = f := f.copy_id f.id f.scope
    have hcopy : (D.frame origin).Closures w fun _ => f.copy id f.id f.scope :=
      .copies ⟨f.id, rfl, trivial⟩ ⟨f.scope, rfl, hscope⟩ hwithin hshort
    rwa [hsame] at hcopy

theorem values_iff {v : ι → Value} : (D.frame origin).Values w v ↔ Constant (D.Admits w) v := by
  constructor
  · intro h
    induction h with
    | plain hv hallowed => exact ⟨_, rfl, admits_plain hv hallowed⟩
    | function hf =>
      obtain ⟨f, rfl, hadmits⟩ := closures_iff.1 hf
      exact ⟨.function f, rfl, hadmits⟩
    | returned _ ih =>
      obtain ⟨u, rfl, hu⟩ := ih
      exact ⟨.returned u, rfl, hu⟩
  · rintro ⟨u, rfl, hu⟩
    induction u with
    | function f => exact .function (closures_iff.2 ⟨f, rfl, hu⟩)
    | returned u ih => exact .returned (ih hu)
    | int n | float x | bool b | str s | null | error e => exact .plain trivial hu.1.allowed

/-- Every value may be stored, so the outcomes are the values. -/
theorem outcome_iff {returns : Bool} {v : ι → Value} :
    (D.frame origin).Outcome returns w v ↔ Constant (D.Admits w) v :=
  ⟨fun h => values_iff.1 h.values, fun h => .kept ⟨values_iff.2 h, trivial⟩⟩

theorem found_of_constant {o : ι → Option Value} (h : Constant (fun o => ∀ v ∈ o, D.Admits w v) o) :
    (D.frame origin).Found w o := by
  obtain ⟨o, rfl, ho⟩ := h
  cases o with
  | none => exact .none
  | some v => exact .some ⟨values_iff.2 ⟨v, rfl, ho v rfl⟩, trivial⟩

end Frame

end Domain

/-! ## Logics of one run -/

/-- A property of families of runs with the same values, with the facts about single steps that it rests on. -/
structure Uniform (ι : Type) extends Domain where
  /-- Any one of the runs. -/
  origin : ι
  settings : ι → Settings
  watch : ι → Watch
  /-- The levels of the events that are recorded; the parts of a program have none below two. -/
  Noted : Nat → Prop
  Holds : {α : Type} → World → (α → Option RuntimeError) → (World → (ι → α) → Prop) → (ι → Eval α) → Prop
  later : ∀ {α : Type} {w w' : World} {error? : α → Option RuntimeError} {Q : World → (ι → α) → Prop}
    {x : ι → Eval α}, Holds w error? Q x → Later w w' → Holds w' error? Q x
  result : ∀ {α : Type} {w : World} {error? : α → Option RuntimeError} {Q : World → (ι → α) → Prop}
    {a : ι → α}, (∀ w', Later w w' → Q w' a) → Holds w error? Q fun i => pure (a i)
  /-- An error that the first part comes to is passed on by the rest. -/
  chain : ∀ {α β : Type} {w : World} {error? : α → Option RuntimeError} {error?' : β → Option RuntimeError}
    {P : World → (ι → α) → Prop} {Q : World → (ι → β) → Prop} {x : ι → Eval α} {next : ι → α → Eval β},
    Holds w error? P x → (∀ w' a, Later w w' → P w' a → Holds w' error?' Q fun i => next i (a i)) →
    (∀ i a e, error? a = some e → PassesOn error?' e (next i a)) →
    Holds w error?' Q fun i => x i >>= next i
  newScope : ∀ {w error? scope}, Usable w scope →
    Holds w error? (fun w => Constant (Usable w)) fun _ => Eval.newScope (some scope)
  newFunction : ∀ {w error?}, Holds w error? (fun _ => Constant fun _ => True) fun _ => Eval.newFunction
  lookup? : ∀ {w error? scope}, Usable w scope → ∀ name,
    Holds w error? (fun w => Constant fun o => ∀ v ∈ o, toDomain.Admits w v) fun _ => Eval.lookup? scope name
  define : ∀ {w error? scope v}, Usable w scope → toDomain.Admits w v → ∀ name constant,
    Holds w error? (fun w => Constant (toDomain.Admits w)) fun _ => Eval.define scope name v constant
  assign : ∀ {w error? scope v}, Usable w scope → toDomain.Admits w v → ∀ name,
    Holds w error? (fun w => Constant (toDomain.Admits w)) fun _ => Eval.assign scope name v
  print : ∀ {w error?} line, Holds w error? (fun _ _ => True) fun _ => Eval.print line
  ofExcept : ∀ {α : Type} {w : World} {error? : α → Option RuntimeError} {r : Except Fault α},
    (∀ f, r = .error f → features.Faults f) →
    Holds w error? (fun _ => Constant fun a => r = .ok a) fun _ => Eval.ofExcept r
  noted : ∀ {level}, 2 ≤ level → Noted level
  note : ∀ {w error? level event}, EventOf level event → (∀ e, event = .ok e → Noted e.level) →
    Holds w error? (fun _ _ => True) fun i => Eval.note (settings i) level fun _ => event
  /-- A run is cut off in a loop, or where the budget does not do. -/
  cut : ∀ {α : Type} {w : World} {error? : α → Option RuntimeError} {Q : World → (ι → α) → Prop},
    (features.loops = true ∨ ∃ depth height, budget.Enough 0 depth (height + 1)) →
    Holds w error? Q fun _ => Eval.outOfFuel
  seen : ∀ {w x}, Holds w Value.error? (fun w => Constant (toDomain.Admits w)) x →
    Holds w Value.error? (fun w => Constant (toDomain.Admits w)) fun i => Watched.seen (watch i) (x i)
  /-- A call that has bound its arguments, with the runs of its body. -/
  limit : ∀ {w depth scope f x}, toDomain.Admits w (.function f) → Usable w scope →
    (budget.Calls depth → Holds w Value.error? (fun w => Constant (toDomain.Admits w)) x) →
    Holds w Value.error? (fun w => Constant (toDomain.Admits w)) fun i =>
      watch i (.call depth f scope) >>= fun _ =>
        if (settings i).callLimit ≤ depth then pure (.error (.recursionLimit f.displayName)) else x i

namespace Uniform

variable {U : Uniform ι} {w : U.World}

/-- Runs of an expression, a statement or a call. -/
abbrev Yields (U : Uniform ι) (w : U.World) (x : ι → Eval Value) : Prop :=
  U.Holds w Value.error? (fun w => Constant (U.Admits w)) x

theorem mono {error? : α → Option RuntimeError} {Q Q' : U.World → (ι → α) → Prop} {x : ι → Eval α}
    (hx : U.Holds w error? Q x) (hQ : ∀ w' a, Q w' a → ∀ w'', U.Later w' w'' → Q' w'' a) :
    U.Holds w error? Q' x := by
  have hbind : U.Holds w error? Q' fun i => x i >>= pure :=
    U.chain hx (fun w' a _ ha => U.result (hQ w' a ha)) fun _ _ _ he => PassesOn.pure he
  simpa only [bind_pure] using hbind

/-- The outcomes of runs are the values of the domain. -/
theorem yields_iff {returns : Bool} {x : ι → Eval Value} :
    U.Holds w Value.error? ((U.frame U.origin).Outcome returns) x ↔ U.Yields w x :=
  ⟨fun h => mono h fun _ _ hv _ hw => Domain.outcome_iff.1 (hv.later hw),
    fun h => mono h fun _ _ hv _ hw => (Domain.outcome_iff.2 hv).later hw⟩

/-- The runs as runs whose values belong together. -/
def steps (U : Uniform ι) : Steps ι where
  toFrame := U.frame U.origin
  settings := U.settings
  watch := U.watch
  extra _ := 0
  Records e := U.Noted e.level
  records _ h := U.noted h
  Holds := U.Holds
  later := U.later
  result := U.result
  chain := U.chain
  newScope h := by
    obtain ⟨scope, rfl, hscope⟩ := h
    exact U.newScope hscope
  newFunction := U.newFunction
  lookup? h name := by
    obtain ⟨scope, rfl, hscope⟩ := h
    exact mono (U.lookup? hscope name) fun _ _ ho _ hw => (Domain.found_of_constant ho).later hw
  define h hv name constant := by
    obtain ⟨scope, rfl, hscope⟩ := h
    obtain ⟨v, rfl, hadmits⟩ := Domain.values_iff.1 hv.values
    exact mono (U.define hscope hadmits name constant) fun _ _ hu _ hw => (Domain.outcome_iff.2 hu).later hw
  assign h hv name := by
    obtain ⟨scope, rfl, hscope⟩ := h
    obtain ⟨v, rfl, hadmits⟩ := Domain.values_iff.1 hv.values
    exact mono (U.assign hscope hadmits name) fun _ _ hu _ hw => (Domain.outcome_iff.2 hu).later hw
  print := U.print
  ofExcept := U.ofExcept
  note := U.note
  cut {_ _ _ _ x} hx h := by
    obtain rfl : x = fun _ => Eval.outOfFuel := funext fun i => hx i rfl
    exact U.cut h
  seen hx := yields_iff.2 (U.seen (yields_iff.1 hx))

def logic (U : Uniform ι) : Logic ι where
  toSteps := U.steps
  call {w depth scope f vs runBody} hf hvs hscope hbody := by
    refine Steps.call_of_limit (fun e he => U.noted (Nat.le_of_eq he.symm)) hf hvs ?_ hbody
    intro w' x hw hx
    obtain ⟨scope, rfl, hscope⟩ := hscope
    obtain ⟨f, rfl, hadmits⟩ := Domain.closures_iff.1 (hf.later hw)
    exact yields_iff.2 (U.limit hadmits (U.usable_later hscope hw) fun hcalls => yields_iff.1 (hx hcalls))

/-! ## Trees -/

section Trees

variable {fuel depth : Nat} {scope : ScopeId}

/-- Up to a bound on steps the runs of every tree have the property. -/
structure Covers (U : Uniform ι) (fuel : Nat) : Prop where
  expr : ∀ {w depth scope} {e : Expr}, U.Usable w scope → e.Within U.features →
    U.budget.Enough fuel depth e.height →
    U.Yields w fun i => Watched.expr (U.watch i) (U.settings i) fuel depth scope e
  stmt : ∀ {w depth scope} {s : Stmt}, U.Usable w scope → s.Within U.features →
    U.budget.Enough fuel depth s.height →
    U.Yields w fun i => Watched.stmt (U.watch i) (U.settings i) fuel depth scope s
  block : ∀ {w depth scope} {b : Block}, U.Usable w scope → b.Within U.features →
    U.budget.Enough fuel depth b.height →
    U.Yields w fun i => Watched.block (U.watch i) (U.settings i) fuel depth scope b
  apply : ∀ {w depth f} {vs : List Value}, U.Admits w (.function f) → (∀ v ∈ vs, U.Admits w v) →
    U.budget.Enough fuel depth 1 →
    U.Yields w fun i => Watched.apply (U.watch i) (U.settings i) fuel depth f vs

theorem aligned_of_admits {vs : List Value} (h : ∀ v ∈ vs, U.Admits w v) :
    Aligned ((U.frame U.origin).Outcome false w) fun _ => vs := by
  induction vs with
  | nil => exact .nil
  | cons v vs ih =>
    obtain ⟨hv, hvs⟩ := List.forall_mem_cons.1 h
    exact .cons (Domain.outcome_iff.2 ⟨v, rfl, hv⟩) (ih hvs)

theorem covers (U : Uniform ι) (fuel : Nat) : U.Covers fuel := by
  have hcovers := U.logic.covers fuel
  -- the bounds are all the same, and no token is changed
  constructor
  · intro w depth scope e hscope he h
    have hyields : U.Yields w fun i =>
        Watched.expr (U.watch i) (U.settings i) (0 + fuel) depth scope (e.retoken id) :=
      yields_iff.1 (hcovers.expr ⟨scope, rfl, hscope⟩ he h)
    simpa only [Nat.zero_add, Expr.retoken_id] using hyields
  · intro w depth scope s hscope hs h
    have houtcomes : U.logic.Outcomes true w (U.logic.stmtRuns fuel depth (fun _ => scope) s) :=
      hcovers.stmt ⟨scope, rfl, hscope⟩ (fun _ => ⟨scope, rfl, hscope⟩) nofun hs h
    have hyields : U.Yields w fun i =>
        Watched.stmt (U.watch i) (U.settings i) (0 + fuel) depth scope (s.retoken id) := yields_iff.1 houtcomes
    simpa only [Nat.zero_add, Stmt.retoken_id] using hyields
  · intro w depth scope b hscope hb h
    have houtcomes : U.logic.Outcomes true w (U.logic.blockRuns fuel depth (fun _ => scope) b) :=
      hcovers.block ⟨scope, rfl, hscope⟩ nofun hb h
    have hyields : U.Yields w fun i =>
        Watched.block (U.watch i) (U.settings i) (0 + fuel) depth scope (b.retoken id) := yields_iff.1 houtcomes
    simpa only [Nat.zero_add, Block.retoken_id] using hyields
  · intro w depth f vs hf hvs h
    have hyields : U.Yields w fun i => Watched.apply (U.watch i) (U.settings i) (0 + fuel) depth f vs :=
      yields_iff.1 (hcovers.apply (Domain.closures_iff.2 ⟨f, rfl, hf⟩) (aligned_of_admits hvs) h)
    simpa only [Nat.zero_add] using hyields

variable {p : Program}

theorem program (hscope : U.Usable w scope) (hp : p.Within U.features)
    (h : ∀ s ∈ p.statements, U.budget.Enough fuel 0 s.height) :
    U.Yields w fun i => Watched.program (U.watch i) (U.settings i) fuel scope p := by
  have hyields : U.Yields w fun i => Watched.program (U.watch i) (U.settings i) (0 + fuel) scope (p.retoken id) :=
    yields_iff.1 (U.logic.program ⟨scope, rfl, hscope⟩ hp h)
  simpa only [Nat.zero_add, Program.retoken_id] using hyields

/-- The runs of every program have the property. -/
theorem runProgram (hnoted : U.Noted 1) (hscope : U.Usable w scope) (hp : p.Within U.features)
    (h : ∀ s ∈ p.statements, U.budget.Enough fuel 0 s.height) :
    U.Yields w fun i => Watched.runProgram (U.watch i) (U.settings i) fuel scope p := by
  have hrecords (e : TraceEvent) (he : e.level = 1) : U.Noted e.level := by
    rw [he]
    exact hnoted
  have hyields : U.Yields w fun i => Watched.runProgram (U.watch i) (U.settings i) (0 + fuel) scope (p.retoken id) :=
    yields_iff.1 (U.logic.runProgram hrecords ⟨scope, rfl, hscope⟩ hp h)
  simpa only [Nat.zero_add, Program.retoken_id] using hyields

end Trees

end Uniform

end ScriptLang
