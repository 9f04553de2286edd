import ScriptLang.Proofs.Eval.Locality
import ScriptLang.Proofs.Eval.Uniform

/-!
  Runs that keep to what there is at their start.

  A program that makes use of some features only, in a scope from which only such functions and values
  can be reached, never comes to anything else: what it makes is made of the same.  So every value that a
  part of it comes to, every value that is bound and every function that is called is of this kind, all
  through the run, and a watch that does nothing in such a case does nothing at all.
-/

namespace ScriptLang

/-- Where runs start: a heap, the scopes of it that they may use, and what trees and functions may have. -/
structure Start where
  heap : Heap
  Own : ScopeId → Prop
  features : Features
  budget : Budget

namespace Start

variable {S : Start}

def domain (S : Start) : Domain := .fixed S.features S.budget (S.heap.Usable S.Own)

/-- A value that runs may come to. -/
abbrev Admits (S : Start) (v : Value) : Prop := S.domain.Admits () v

/-- The heap has kept to the start: nothing else is bound in the scopes that may be used, and the other
    scopes are as they were. -/
structure Keeps (S : Start) (h : Heap) : Prop where
  confined : S.heap.Confined S.Own h
  admits : ∀ {id name b}, S.heap.Usable S.Own id → h.binding? id name = some b → S.Admits b.value

namespace Keeps

variable {h : Heap} {id : ScopeId} {v : Value}

theorem alloc (hkeeps : S.Keeps h) (hid : S.heap.Usable S.Own id) : S.Keeps (h.alloc (some id)).2 where
  confined := hkeeps.confined.alloc hid
  admits hi hb := by
    rw [Heap.binding?_alloc] at hb
    exact hkeeps.admits hi hb

theorem allocFunction (hkeeps : S.Keeps h) : S.Keeps h.allocFunction.2 where
  confined := by
    obtain ⟨hsize, houter, hcaptured, huntouched⟩ := hkeeps.confined
    exact ⟨hsize, houter, hcaptured, huntouched⟩
  admits hi hb := hkeeps.admits hi hb

theorem define (hkeeps : S.Keeps h) (hid : S.heap.Usable S.Own id) (hv : S.Admits v) (name : String)
    (constant : Bool) : S.Keeps (h.define id name v constant).2 where
  confined := hkeeps.confined.define hid (fun f hf => (hv.2 f hf).1) name constant
  admits hi hb := by
    rcases Heap.binding?_define hb with hold | ⟨-, rfl⟩
    · exact hkeeps.admits hi hold
    · exact hv

theorem assign (hkeeps : S.Keeps h) (hid : S.heap.Usable S.Own id) (hv : S.Admits v) (name : String) :
    S.Keeps (h.assign id name v).2 where
  confined := hkeeps.confined.assign hid (fun f hf => (hv.2 f hf).1) name
  admits hi hb := by
    rcases Heap.binding?_assign hb with hold | rfl
    · exact hkeeps.admits hi hold
    · exact hv

theorem get? (hkeeps : S.Keeps h) (hid : S.heap.Usable S.Own id) {name : String} (hv : h.get? id name = some v) :
    S.Admits v := by
  obtain ⟨⟨owner, b⟩, hr, rfl⟩ := Option.map_eq_some_iff.1 hv
  -- the scope that binds the name lies on the chain, so it is usable too
  exact hkeeps.admits (Heap.resolve?_owner hkeeps.confined.outer hid hr) (Heap.resolve?_some hr)

end Keeps

/-- A declaration gives the value or an error. -/
theorem admits_define {h : Heap} {v : Value} (hv : S.Admits v) (id : ScopeId) (name : String)
    (constant : Bool) : S.Admits (h.define id name v constant).1 := by
  rcases Heap.define_cases h id name v constant with ⟨-, heq⟩ | ⟨-, heq, -⟩
  · rw [heq]
    exact Domain.admits_error _
  · rw [heq]
    exact hv

theorem admits_assign {h : Heap} {v : Value} (hv : S.Admits v) (id : ScopeId) (name : String) :
    S.Admits (h.assign id name v).1 := by
  rcases Heap.assign_cases h id name v with ⟨e, heq⟩ | ⟨owner, b, -, -, heq, -⟩
  · rw [heq]
    exact Domain.admits_error e
  · rw [heq]
    exact hv

/-- How runs may be halted. -/
def Allows (S : Start) : Halt → Prop
  | .fault f => S.features.Faults f
  | .outOfFuel => S.features.loops = true ∨ ∃ depth height, S.budget.Enough 0 depth (height + 1)

/-- The watches that do nothing as long as a run keeps to its start. -/
structure Lenient (S : Start) where
  watch : Watch
  value : ∀ {v m}, S.Admits v → S.Keeps m.heap → watch (.value v) m = .ok () m
  call : ∀ {depth f scope m}, S.Admits (.function f) → S.heap.Usable S.Own scope → S.Keeps m.heap →
    watch (.call depth f scope) m = .ok () m

def Lenient.silent : S.Lenient := ⟨.silent, fun _ _ => rfl, fun _ _ _ => rfl⟩

/-- How runs with such watches end: all in the same way, with a heap that has kept to the start. -/
inductive Kept {α : Type} (S : Start) (Q : (S.Lenient → α) → Prop) (x : S.Lenient → Eval α) (m : Machine) : Prop
  | value (a : S.Lenient → α) (m' : Machine) : (∀ i, x i m = .ok (a i) m') → S.Keeps m'.heap → Q a → S.Kept Q x m
  | halt (h : Halt) (m' : Machine) : (∀ i, x i m = .error h m') → S.Keeps m'.heap → S.Allows h → S.Kept Q x m

namespace Kept

variable {α β : Type} {P : (S.Lenient → α) → Prop} {Q : (S.Lenient → β) → Prop} {m : Machine}

theorem bind {x : S.Lenient → Eval α} {next : S.Lenient → α → Eval β} (hx : S.Kept P x m)
    (hnext : ∀ a, P a → ∀ m, S.Keeps m.heap → S.Kept Q (fun i => next i (a i)) m) :
    S.Kept Q (fun i => x i >>= next i) m := by
  cases hx with
  | halt h m' hrun hkeeps hallows =>
    exact .halt h m' (fun i => Eval.bind_of_error (hrun i) _) hkeeps hallows
  | value a m' hrun hkeeps ha =>
    have hbind (i : S.Lenient) : (x i >>= next i) m = next i (a i) m' := Eval.bind_of_ok (hrun i) _
    cases hnext a ha m' hkeeps with
    | value b m₂ hrun₂ hkeeps₂ hb =>
      exact .value b m₂ (fun i => (hbind i).trans (hrun₂ i)) hkeeps₂ hb
    | halt h m₂ hrun₂ hkeeps₂ hallows =>
      exact .halt h m₂ (fun i => (hbind i).trans (hrun₂ i)) hkeeps₂ hallows

theorem ofExcept {r : Except Fault α} (hfaults : ∀ f, r = .error f → S.features.Faults f)
    (hkeeps : S.Keeps m.heap) : S.Kept (Constant fun a => r = .ok a) (fun _ => Eval.ofExcept r) m := by
  cases r with
  | ok a => exact .value (fun _ => a) m (fun _ => rfl) hkeeps ⟨a, rfl, rfl⟩
  | error f => exact .halt (.fault f) m (fun _ => rfl) hkeeps (hfaults f rfl)

theorem note {settings : Settings} {level : Nat} {event : Except Fault TraceEvent}
    (hevent : EventOf level event) (hkeeps : S.Keeps m.heap) :
    S.Kept (fun _ => True) (fun _ => Eval.note settings level fun _ => event) m := by
  unfold Eval.note
  by_cases hlevel : (level : Int) ≤ settings.traceLevel
  · simp only [if_pos hlevel]
    rcases hevent with ⟨e, he, -⟩ | ⟨-, herror⟩
    · rw [he]
      exact .value (fun _ => ()) _ (fun _ => rfl) hkeeps trivial
    · rw [herror]
      exact .halt (.fault .textDigits) m (fun _ => rfl) hkeeps (Or.inr rfl)
  · simp only [if_neg hlevel]
    exact .value (fun _ => ()) m (fun _ => rfl) hkeeps trivial

/-- A watch sees nothing but what it lets go. -/
theorem seen {x : S.Lenient → Eval Value} (hx : S.Kept (Constant S.Admits) x m) :
    S.Kept (Constant S.Admits) (fun i => Watched.seen i.watch (x i)) m := by
  refine hx.bind fun _ hsame m hkeeps => ?_
  obtain ⟨v, rfl, hv⟩ := hsame
  refine .value (fun _ => v) m (fun i => ?_) hkeeps ⟨v, rfl, hv⟩
  exact Eval.bind_of_ok (i.value hv hkeeps) _

/-- What is known of the run without a watch, and that the watches make no difference. -/
theorem ends {x : S.Lenient → Eval α} {R : α → Prop} (hx : S.Kept (Constant R) x m) :
    S.Keeps (m.step (x .silent)).2.heap ∧ (∀ a, (m.step (x .silent)).1 = .ok a → R a) ∧
      (∀ h, (m.step (x .silent)).1 = .error h → S.Allows h) ∧ ∀ i, x i m = x .silent m := by
  unfold Machine.step
  cases hx with
  | value _ m' hrun hkeeps hsame =>
    obtain ⟨a, rfl, ha⟩ := hsame
    rw [hrun]
    refine ⟨hkeeps, ?_, nofun, hrun⟩
    rintro _ ⟨⟩
    exact ha
  | halt h m' hrun hkeeps hallows =>
    rw [hrun]
    refine ⟨hkeeps, nofun, ?_, hrun⟩
    rintro _ ⟨⟩
    exact hallows

end Kept

/-- Runs from a start. -/
def keeping (S : Start) (settings : Settings) (hcalls : ∀ depth < settings.callLimit, S.budget.Calls depth) :
    Uniform S.Lenient where
  toDomain := S.domain
  origin := .silent
  settings _ := settings
  watch i := i.watch
  Noted _ := True
  Holds _ _ Q x := ∀ m : Machine, S.Keeps m.heap → S.Kept (Q ()) x m
  later h _ := h
  result {_ _ _ _ a} ha m hm := .value a m (fun _ => rfl) hm (ha () trivial)
  chain hx hnext _ m hm := (hx m hm).bind fun a ha => hnext () a trivial ha
  newScope {_ _ scope} hid m hm :=
    .value (fun _ => m.heap.scopes.size) ⟨(m.heap.alloc (some scope)).2, m.output, m.trace⟩
      (fun _ => rfl) (hm.alloc hid) ⟨_, rfl, Or.inr hm.confined.size_le⟩
  newFunction m hm := .value (fun _ => m.heap.functions) ⟨m.heap.allocFunction.2, m.output, m.trace⟩
    (fun _ => rfl) hm.allocFunction ⟨_, rfl, trivial⟩
  lookup? {_ _ scope} hid name m hm :=
    .value (fun _ => m.heap.get? scope name) m (fun _ => rfl) hm ⟨_, rfl, fun _ hv => hm.get? hid hv⟩
  define {_ _ scope v} hid hv name constant m hm :=
    .value (fun _ => (m.heap.define scope name v constant).1)
      ⟨(m.heap.define scope name v constant).2, m.output, m.trace⟩
      (fun _ => rfl) (hm.define hid hv name constant) ⟨_, rfl, admits_define hv scope name constant⟩
  assign {_ _ scope v} hid hv name m hm :=
    .value (fun _ => (m.heap.assign scope name v).1) ⟨(m.heap.assign scope name v).2, m.output, m.trace⟩
      (fun _ => rfl) (hm.assign hid hv name) ⟨_, rfl, admits_assign hv scope name⟩
  print line m hm := .value (fun _ => ()) ⟨m.heap, m.output ++ line ++ "\n", m.trace⟩ (fun _ => rfl) hm trivial
  ofExcept hfaults m hm := .ofExcept hfaults hm
  noted _ := trivial
  note hevent _ m hm := .note hevent hm
  cut h m hm := .halt .outOfFuel m (fun _ => rfl) hm h
  seen hx m hm := (hx m hm).seen
  limit {_ depth scope f x} hf hscope hx m hm := by
    have hwatch : S.Kept (fun _ => True) (fun i => i.watch (.call depth f scope)) m :=
      .value (fun _ => ()) m (fun i => i.call hf hscope hm) hm trivial
    refine hwatch.bind fun _ _ m hm => ?_
    by_cases hlimit : settings.callLimit ≤ depth
    · simp only [if_pos hlimit]
      exact .value (fun _ => .error (.recursionLimit f.displayName)) m (fun _ => rfl) hm
        ⟨_, rfl, Domain.admits_error _⟩
    · simp only [if_neg hlimit]
      exact hx (hcalls depth (Nat.lt_of_not_le hlimit)) m hm

/-- The start of runs in a scope, which use what can be reached from it. -/
def reaching (h : Heap) (scope : ScopeId) (features : Features) (budget : Budget) : Start :=
  ⟨h, h.Reaches (· = scope), features, budget⟩

theorem keeps_reaching {h : Heap} {scope : ScopeId} {features : Features} {budget : Budget}
    (hwithin : ∀ id name b, h.Reaches (· = scope) id → h.binding? id name = some b → b.value.Within features)
    (hshort : ∀ id name b, h.Reaches (· = scope) id → h.binding? id name = some b →
      ∀ f ∈ b.value.closure?, budget.Short f.body.height) :
    (reaching h scope features budget).Keeps h where
  confined := h.confined_reaches _
  admits {id name b} hid hb := by
    rcases hid with hid | hid
    · refine ⟨hwithin id name b hid hb, fun f hf => ⟨Or.inl (hid.captured hb hf), ?_⟩⟩
      exact hshort id name b hid hb f hf
    · exact absurd (Heap.lt_size_of_binding? hb) (Nat.not_lt_of_le hid)

/-- What the run of a program that keeps to its start comes to; the watches make no difference. -/
structure KeptRun (S : Start) (settings : Settings) (fuel : Nat) (scope : ScopeId) (p : Program) (m : Machine) :
    Prop where
  keeps : S.Keeps (m.step (runProgram settings fuel scope p)).2.heap
  value : ∀ v, (m.step (runProgram settings fuel scope p)).1 = .ok v → S.Admits v
  halt : ∀ h, (m.step (runProgram settings fuel scope p)).1 = .error h → S.Allows h
  watched : ∀ i : S.Lenient,
    Watched.runProgram i.watch settings fuel scope p m = runProgram settings fuel scope p m

/-- Programs keep to what can be reached from their scope. -/
theorem runProgram_keeps {features : Features} {budget : Budget} {settings : Settings} {fuel : Nat}
    {scope : ScopeId} {p : Program} {m : Machine} (hcalls : ∀ depth < settings.callLimit, budget.Calls depth)
    (hp : p.Within features) (henough : ∀ s ∈ p.statements, budget.Enough fuel 0 s.height)
    (hkeeps : (reaching m.heap scope features budget).Keeps m.heap) :
    (reaching m.heap scope features budget).KeptRun settings fuel scope p m := by
  let S := reaching m.heap scope features budget
  have hscope : S.heap.Usable S.Own scope := Or.inl (.root rfl)
  have hruns : (S.keeping settings hcalls).Yields () fun i => Watched.runProgram i.watch settings fuel scope p :=
    Uniform.runProgram trivial hscope hp henough
  have hsilent : Watched.runProgram (Lenient.silent : S.Lenient).watch settings fuel scope p =
      runProgram settings fuel scope p := Watched.runProgram_silent ..
  obtain ⟨hheap, hvalue, hhalt, hwatched⟩ := (hruns m hkeeps).ends
  rw [hsilent] at hheap hvalue hhalt hwatched
  exact ⟨hheap, hvalue, hhalt, hwatched⟩

end Start

/-- A machine that has not run anything has nothing to reach. -/
theorem fresh_within (features : Features) (id : ScopeId) (name : String) (b : Binding)
    (_ : Machine.fresh.heap.Reaches (· = 0) id) (hb : Machine.fresh.heap.binding? id name = some b) :
    b.value.Within features := by
  rw [Machine.fresh, Heap.binding?_alloc] at hb
  cases hb

end ScriptLang
