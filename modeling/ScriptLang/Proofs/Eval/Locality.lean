import ScriptLang.Session
import ScriptLang.Proofs.Eval.Correspondence
import ScriptLang.Proofs.Eval.Discipline
import ScriptLang.Proofs.Scope.Reach

/-!
  Runs are local.

  A run has to do only with what can be reached from the scope it is run in, and a call only with what
  can be reached from the function and its arguments.  All other scopes stay untouched, and they do not
  matter: in two heaps that agree on what can be reached, a run does the same, up to the numbers of the
  scopes and functions that it makes.
-/

namespace ScriptLang

/-! ## Writing -/

namespace Heap

variable {h₀ h : Heap} {P roots : ScopeId → Prop} {id : ScopeId} {name : String} {v : Value}

/-- The scopes that a run may use: those with a property, and all that are made after the start. -/
def Usable (h₀ : Heap) (P : ScopeId → Prop) (id : ScopeId) : Prop := P id ∨ h₀.scopes.size ≤ id

/-- Usable scopes mention only usable scopes, and the others are as they were at the start. -/
structure Confined (h₀ : Heap) (P : ScopeId → Prop) (h : Heap) : Prop where
  size_le : h₀.scopes.size ≤ h.scopes.size
  outer : ∀ {id o}, h₀.Usable P id → h.outer? id = some o → h₀.Usable P o
  captured : ∀ {id name b f}, h₀.Usable P id → h.binding? id name = some b → b.value.closure? = some f →
    h₀.Usable P f.scope
  untouched : ∀ id, ¬ h₀.Usable P id → h.scopes[id]? = h₀.scopes[id]?

theorem lt_size_of_binding? {b : Binding} (hb : h.binding? id name = some b) : id < h.scopes.size := by
  obtain ⟨s, hs, -⟩ := binding?_eq_some.1 hb
  exact (Array.getElem?_eq_some_iff.1 hs).1

/-- At the start what can be reached leads only to what can be reached. -/
theorem confined_reaches (h : Heap) (roots : ScopeId → Prop) : h.Confined (h.Reaches roots) h where
  size_le := Nat.le_refl _
  outer hid ho := by
    rcases hid with hid | hid
    · exact Or.inl (hid.outer ho)
    · exact absurd (lt_size_of_outer? ho) (Nat.not_lt_of_le hid)
  captured hid hb hf := by
    rcases hid with hid | hid
    · exact Or.inl (hid.captured hb hf)
    · exact absurd (lt_size_of_binding? hb) (Nat.not_lt_of_le hid)
  untouched _ _ := rfl

namespace Confined

theorem alloc (hconf : h₀.Confined P h) (hid : h₀.Usable P id) : h₀.Confined P (h.alloc (some id)).2 where
  size_le := by
    rw [size_alloc]
    exact Nat.le_succ_of_le hconf.size_le
  outer {i o} hi ho := by
    rw [outer?_alloc] at ho
    by_cases hnew : i = h.scopes.size
    · rw [if_pos hnew] at ho
      cases ho
      exact hid
    · rw [if_neg hnew] at ho
      exact hconf.outer hi ho
  captured hi hb hf := by
    rw [binding?_alloc] at hb
    exact hconf.captured hi hb hf
  untouched i hi := by
    have hne : i ≠ h.scopes.size := fun heq => hi (Or.inr (heq ▸ hconf.size_le))
    rw [scopes_alloc, if_neg hne]
    exact hconf.untouched i hi

theorem define (hconf : h₀.Confined P h) (hid : h₀.Usable P id)
    (hv : ∀ f ∈ v.closure?, h₀.Usable P f.scope) (name : String) (constant : Bool) :
    h₀.Confined P (h.define id name v constant).2 where
  size_le := by
    rw [size_define]
    exact hconf.size_le
  outer hi ho := by
    rw [outer?_define] at ho
    exact hconf.outer hi ho
  captured hi hb hf := by
    rcases binding?_define hb with hold | ⟨-, rfl⟩
    · exact hconf.captured hi hold hf
    · exact hv _ hf
  untouched i hi := by
    rcases define_cases h id name v constant with ⟨-, heq⟩ | ⟨-, -, -, hscopes⟩
    · rw [heq]
      exact hconf.untouched i hi
    · have hne : i ≠ id := fun heq => hi (heq ▸ hid)
      rw [hscopes, if_neg hne]
      exact hconf.untouched i hi

theorem assign (hconf : h₀.Confined P h) (hid : h₀.Usable P id)
    (hv : ∀ f ∈ v.closure?, h₀.Usable P f.scope) (name : String) :
    h₀.Confined P (h.assign id name v).2 where
  size_le := by
    rw [size_assign]
    exact hconf.size_le
  outer hi ho := by
    rw [outer?_assign] at ho
    exact hconf.outer hi ho
  captured hi hb hf := by
    rcases binding?_assign hb with hold | rfl
    · exact hconf.captured hi hold hf
    · exact hv _ hf
  untouched i hi := by
    rcases assign_cases h id name v with ⟨e, heq⟩ | ⟨owner, b, hr, -, -, -, hscopes⟩
    · rw [heq]
      exact hconf.untouched i hi
    · -- the scope that is written to lies on the chain, so it is usable
      have hne : i ≠ owner := fun heq => hi (heq ▸ resolve?_owner hconf.outer hid hr)
      rw [hscopes, if_neg hne]
      exact hconf.untouched i hi

end Confined

end Heap

/-- Runs use what is usable and leave the rest alone. -/
def confinement (h₀ : Heap) (P : ScopeId → Prop) : Discipline where
  Good := h₀.Confined P
  Usable _ := h₀.Usable P
  Change _ _ := True
  refl _ := trivial
  trans _ _ := trivial
  usable_mono _ hid := hid
  alloc hconf hid := ⟨hconf.alloc hid, trivial, Or.inr hconf.size_le⟩
  allocFunction hconf := ⟨⟨hconf.size_le, hconf.outer, hconf.captured, hconf.untouched⟩, trivial⟩
  define hconf hid hv name constant := ⟨hconf.define hid hv name constant, trivial⟩
  assign hconf hid hv name := ⟨hconf.assign hid hv name, trivial⟩
  get? hconf hid hget f hf := by
    obtain ⟨⟨owner, b⟩, hr, rfl⟩ := Option.map_eq_some_iff.1 hget
    exact hconf.captured (Heap.resolve?_owner hconf.outer hid hr) (Heap.resolve?_some hr) hf

/-- What cannot be reached is untouched, in whatever way the run ends. -/
theorem step_untouched {m : Machine} {roots : ScopeId → Prop} {x : Eval Value}
    (hx : (confinement m.heap (m.heap.Reaches roots)).Yields m.heap x) {id : ScopeId}
    (hlt : id < m.heap.scopes.size) (hid : ¬ m.heap.Reaches roots id) :
    (m.step x).2.heap.scopes[id]? = m.heap.scopes[id]? := by
  have hunusable : ¬ m.heap.Usable (m.heap.Reaches roots) id := by
    rintro (hreach | hle)
    · exact hid hreach
    · exact Nat.not_lt_of_le hle hlt
  have hend := hx m (m.heap.confined_reaches roots) trivial
  unfold Machine.step
  cases hrun : x m with
  | ok v m' =>
    rw [hrun] at hend
    exact hend.1.untouched id hunusable
  | error e m' =>
    rw [hrun] at hend
    exact hend.1.untouched id hunusable

/-! ## Numbers of what is made -/

/-- The number in the second count: the old numbers stay, the new ones follow on. -/
def renumber (n n' i : Nat) : Nat := if i < n then i else i - n + n'

theorem renumber_of_lt {n i : Nat} (n' : Nat) (hi : i < n) : renumber n n' i = i := if_pos hi

theorem renumber_add (n n' k : Nat) : renumber n n' (n + k) = n' + k := by
  unfold renumber
  rw [if_neg (Nat.not_lt_of_le (Nat.le_add_right n k)), Nat.add_sub_cancel_left, Nat.add_comm]

/-- The number of a scope, old or made since the heap `h`, in a run that started from `h'` instead. -/
def Heap.scopeNumber (h h' : Heap) : ScopeId → ScopeId := renumber h.scopes.size h'.scopes.size

def Heap.functionNumber (h h' : Heap) : Nat → Nat := renumber h.functions h'.functions

/-- The value with the numbers for its function and the scope of that. -/
def Value.renumber (h h' : Heap) : Value → Value
  | .function f => .function { f with id := h.functionNumber h' f.id, scope := h.scopeNumber h' f.scope }
  | .returned v => .returned (v.renumber h h')
  | v => v

def Binding.renumber (h h' : Heap) (b : Binding) : Binding := { b with value := b.value.renumber h h' }

theorem Value.renumber_of_none {h h' : Heap} {v : Value} (hv : v.closure? = none) : v.renumber h h' = v := by
  induction v with
  | function f => cases hv
  | returned u ih => exact congrArg Value.returned (ih hv)
  | int n | float x | bool b | str s | null | error e => rfl

/-! ## Reading -/

/-- A matching that says of each scope in use what its number is in the second heap, while the two heaps
    make scopes and functions in step. -/
structure Tracks (h₀ h₀' : Heap) (P : ScopeId → Prop) (w : Matching) (h h' : Heap) : Prop where
  owns_iff : ∀ {a a'}, w.owns a a' ↔
    (P a ∨ h₀.scopes.size ≤ a ∧ a < h.scopes.size) ∧ a' = h₀.scopeNumber h₀' a
  sees_owns : ∀ {a a'}, w.sees a a' → w.owns a a'
  same : ∀ {i i'}, w.same i i' → i' = h₀.functionNumber h₀' i
  scopes : ∃ k, h.scopes.size = h₀.scopes.size + k ∧ h'.scopes.size = h₀'.scopes.size + k
  functions : ∃ k, h.functions = h₀.functions + k ∧ h'.functions = h₀'.functions + k

namespace Tracks

variable {h₀ h₀' h h' : Heap} {P : ScopeId → Prop} {w : Matching}

theorem start (hP : ∀ {id}, P id → id < h₀.scopes.size) :
    Tracks h₀ h₀' P (.shared P h₀.functions h₀'.functions) h₀ h₀' where
  owns_iff {a a'} := by
    constructor
    · rintro ⟨rfl, ha⟩
      exact ⟨Or.inl ha, (renumber_of_lt _ (hP ha)).symm⟩
    · rintro ⟨ha | ⟨hle, hlt⟩, rfl⟩
      · exact ⟨renumber_of_lt _ (hP ha), ha⟩
      · exact absurd hlt (Nat.not_lt_of_le hle)
  sees_owns ha := ha
  same {i i'} hi := by
    obtain ⟨rfl, hlt, -⟩ := hi
    exact (renumber_of_lt _ hlt).symm
  scopes := ⟨0, rfl, rfl⟩
  functions := ⟨0, rfl, rfl⟩

theorem alloc (htracks : Tracks h₀ h₀' P w h h')
    (hnew : ∀ {a a'}, w.owns a a' → a ≠ h.scopes.size ∧ a' ≠ h'.scopes.size) (a a' : Option ScopeId) :
    Tracks h₀ h₀' P (w.withScope h.scopes.size h'.scopes.size hnew) (h.alloc a).2 (h'.alloc a').2 := by
  -- both heaps have made the same number of scopes, so the next two have matching numbers
  obtain ⟨k, hk, hk'⟩ := htracks.scopes
  have hnumber : h'.scopes.size = h₀.scopeNumber h₀' h.scopes.size := by
    rw [hk, hk']
    exact (renumber_add _ _ k).symm
  constructor
  · intro c c'
    rw [Heap.size_alloc]
    constructor
    · rintro (hc | ⟨rfl, rfl⟩)
      · obtain ⟨hdom, heq⟩ := htracks.owns_iff.1 hc
        exact ⟨hdom.imp_right fun hc => ⟨hc.1, Nat.lt_succ_of_lt hc.2⟩, heq⟩
      · exact ⟨Or.inr ⟨hk ▸ Nat.le_add_right _ k, Nat.lt_succ_self _⟩, hnumber⟩
    · rintro ⟨hc | ⟨hle, hlt⟩, heq⟩
      · exact Or.inl (htracks.owns_iff.2 ⟨Or.inl hc, heq⟩)
      · rcases Nat.lt_or_eq_of_le (Nat.le_of_lt_succ hlt) with hlt | rfl
        · exact Or.inl (htracks.owns_iff.2 ⟨Or.inr ⟨hle, hlt⟩, heq⟩)
        · exact Or.inr ⟨rfl, heq.trans hnumber.symm⟩
  · intro c c' hc
    exact hc.imp_left htracks.sees_owns
  · exact htracks.same
  · refine ⟨k + 1, ?_, ?_⟩
    · rw [Heap.size_alloc, hk, Nat.add_assoc]
    · rw [Heap.size_alloc, hk', Nat.add_assoc]
  · exact htracks.functions

theorem allocFunction (htracks : Tracks h₀ h₀' P w h h')
    (hnew : ∀ {i i'}, w.same i i' → i ≠ h.functions ∧ i' ≠ h'.functions) :
    Tracks h₀ h₀' P (w.withFunction h.functions h'.functions hnew) h.allocFunction.2 h'.allocFunction.2 := by
  obtain ⟨k, hk, hk'⟩ := htracks.functions
  constructor
  · exact htracks.owns_iff
  · exact htracks.sees_owns
  · rintro i i' (hi | ⟨rfl, rfl⟩)
    · exact htracks.same hi
    · rw [hk, hk']
      exact (renumber_add _ _ k).symm
  · exact htracks.scopes
  · refine ⟨k + 1, ?_, ?_⟩
    · show h.functions + 1 = _
      rw [hk, Nat.add_assoc]
    · show h'.functions + 1 = _
      rw [hk', Nat.add_assoc]

/-- Declarations and assignments make nothing. -/
theorem of_sizes {h₁ h₁' : Heap} (htracks : Tracks h₀ h₀' P w h h')
    (hsize : h₁.scopes.size = h.scopes.size) (hsize' : h₁'.scopes.size = h'.scopes.size)
    (hfunctions : h₁.functions = h.functions) (hfunctions' : h₁'.functions = h'.functions) :
    Tracks h₀ h₀' P w h₁ h₁' where
  owns_iff := by
    rw [hsize]
    exact htracks.owns_iff
  sees_owns := htracks.sees_owns
  same := htracks.same
  scopes := by
    rw [hsize, hsize']
    exact htracks.scopes
  functions := by
    rw [hfunctions, hfunctions']
    exact htracks.functions

theorem eq_scopeNumber (htracks : Tracks h₀ h₀' P w h h') {a a' : ScopeId} (ha : w.sees a a') :
    a' = h₀.scopeNumber h₀' a :=
  (htracks.owns_iff.1 (htracks.sees_owns ha)).2

/-- Values that are alike are the same up to numbers. -/
theorem eq_renumber (htracks : Tracks h₀ h₀' P w h h') {v v' : Value} (hv : w.Alike v v') :
    v' = v.renumber h₀ h₀' := by
  induction hv with
  | plain hv => exact (Value.renumber_of_none hv).symm
  | function hid hscope =>
    rw [htracks.same hid, htracks.eq_scopeNumber hscope]
    rfl
  | returned _ ih => exact congrArg Value.returned ih

theorem eq_renumber_binding (htracks : Tracks h₀ h₀' P w h h') {b b' : Binding} (hb : w.Bound b b') :
    b' = b.renumber h₀ h₀' := by
  obtain ⟨value, constant⟩ := b
  obtain ⟨value', constant'⟩ := b'
  obtain ⟨hconstant, hvalue⟩ := hb
  have hvalue' : value' = value.renumber h₀ h₀' := htracks.eq_renumber hvalue
  have hconstant' : constant = constant' := hconstant
  rw [hvalue', ← hconstant']
  rfl

/-- A scope in use is there on both sides or, beyond the last one made, on neither. -/
theorem usable_cases (htracks : Tracks h₀ h₀' P w h h') {id : ScopeId} (hid : h₀.Usable P id) :
    w.owns id (h₀.scopeNumber h₀' id) ∨ h.scopes.size ≤ id ∧ h'.scopes.size ≤ h₀.scopeNumber h₀' id := by
  rcases hid with hid | hle
  · exact Or.inl (htracks.owns_iff.2 ⟨Or.inl hid, rfl⟩)
  by_cases hlt : id < h.scopes.size
  · exact Or.inl (htracks.owns_iff.2 ⟨Or.inr ⟨hle, hlt⟩, rfl⟩)
  obtain ⟨k, hk, hk'⟩ := htracks.scopes
  obtain ⟨j, rfl⟩ := Nat.exists_eq_add_of_le hle
  refine Or.inr ⟨Nat.le_of_not_lt hlt, ?_⟩
  have hjk : k ≤ j := by
    rw [hk] at hlt
    exact Nat.le_of_add_le_add_left (Nat.le_of_not_lt hlt)
  have hnumber : h₀.scopeNumber h₀' (h₀.scopes.size + j) = h₀'.scopes.size + j := renumber_add _ _ j
  rw [hk', hnumber]
  exact Nat.add_le_add_left hjk _

end Tracks

/-- Two runs that start from heaps that agree on what has a property. -/
def agreement (h₀ h₀' : Heap) (P : ScopeId → Prop) : Correspondence where
  Heaps w h h' := h.Fits w h' ∧ Tracks h₀ h₀' P w h h'
  Traces := Eq
  Stored _ := True
  stored_of_not_signal _ := trivial
  stored_returned _ := trivial
  push := Correspondence.push_eq
  alloc := by
    rintro w h h' a a' ⟨hfits, htracks⟩ hsees
    exact ⟨_, w.le_withScope _, ⟨hfits.alloc hsees, htracks.alloc _ _ _⟩, Or.inr ⟨rfl, rfl⟩⟩
  allocFunction := by
    rintro w h h' ⟨hfits, htracks⟩
    exact ⟨_, w.le_withFunction _, ⟨hfits.allocFunction, htracks.allocFunction _⟩, Or.inr ⟨rfl, rfl⟩⟩
  define := by
    rintro w h h' a a' v v' ⟨hfits, htracks⟩ howns hv - name constant
    obtain ⟨hfits', halike⟩ := hfits.define howns hv name constant
    refine ⟨⟨hfits', ?_⟩, halike⟩
    exact htracks.of_sizes (Heap.size_define _) (Heap.size_define _) (Heap.functions_define _)
      (Heap.functions_define _)
  assign := by
    rintro w h h' a a' v v' ⟨hfits, htracks⟩ hsees hv - name
    obtain ⟨hfits', halike⟩ := hfits.assign hsees hv name
    refine ⟨⟨hfits', ?_⟩, halike⟩
    exact htracks.of_sizes Heap.size_assign Heap.size_assign Heap.functions_assign Heap.functions_assign
  get? := by
    rintro w h h' a a' ⟨hfits, -⟩ hsees name
    exact Heap.rel_mono (hfits.get? hsees name) fun _ _ hv => ⟨hv, trivial⟩

/-- Two ends that are the same up to the numbers of what was made since the two starts: the results, the
    output, the trace, and the scopes that were usable or are new. -/
structure SameEnd (h₀ h₀' : Heap) (P : ScopeId → Prop) (r r' : Except Halt Value × Machine) : Prop where
  result : r'.1 = r.1.map (Value.renumber h₀ h₀')
  output : r'.2.output = r.2.output
  trace : r'.2.trace = r.2.trace
  outer : ∀ id, h₀.Usable P id →
    r'.2.heap.outer? (h₀.scopeNumber h₀' id) = (r.2.heap.outer? id).map (h₀.scopeNumber h₀')
  bindings : ∀ id, h₀.Usable P id → ∀ name,
    r'.2.heap.binding? (h₀.scopeNumber h₀' id) name = (r.2.heap.binding? id name).map (Binding.renumber h₀ h₀')

theorem Heap.outer?_of_size_le {h : Heap} {id : ScopeId} (hid : h.scopes.size ≤ id) : h.outer? id = none := by
  unfold outer?
  rw [Array.getElem?_eq_none hid]
  rfl

theorem Heap.binding?_of_size_le {h : Heap} {id : ScopeId} (hid : h.scopes.size ≤ id) (name : String) :
    h.binding? id name = none := by
  unfold binding?
  rw [Array.getElem?_eq_none hid]
  rfl

theorem Heap.eq_map_of_rel {α : Type} {R : α → α → Prop} {g : α → α} {o o' : Option α}
    (hrel : Option.Rel R o o') (hR : ∀ b b', R b b' → b' = g b) : o' = o.map g := by
  cases hrel with
  | none => rfl
  | some h => exact congrArg some (hR _ _ h)

section Ends

variable {h₀ h₀' : Heap} {P : ScopeId → Prop} {m m' : Machine} {w : Matching}

theorem Correspondence.Machines.sameEnd {r r' : Except Halt Value} (hm : (agreement h₀ h₀' P).Machines w m m')
    (hr : r' = r.map (Value.renumber h₀ h₀')) : SameEnd h₀ h₀' P (r, m) (r', m') := by
  obtain ⟨⟨hfits, htracks⟩, houtput, htrace⟩ := hm
  refine ⟨hr, houtput.symm, htrace.symm, fun id hid => ?_, fun id hid name => ?_⟩
  · rcases htracks.usable_cases hid with howns | ⟨hle, hle'⟩
    · exact Heap.eq_map_of_rel (hfits.outer howns) fun _ _ => htracks.eq_scopeNumber
    · rw [Heap.outer?_of_size_le hle, Heap.outer?_of_size_le hle']
      rfl
  · rcases htracks.usable_cases hid with howns | ⟨hle, hle'⟩
    · exact Heap.eq_map_of_rel (hfits.bindings howns name) fun _ _ => htracks.eq_renumber_binding
    · rw [Heap.binding?_of_size_le hle, Heap.binding?_of_size_le hle']
      rfl

/-- What is in use stays sound. -/
theorem Correspondence.Machines.sound (hm : (agreement h₀ h₀' P).Machines w m m') :
    m.heap.Sound fun a => P a ∨ h₀.scopes.size ≤ a ∧ a < m.heap.scopes.size := by
  obtain ⟨hfits, htracks⟩ := hm.heaps
  -- without pads the scopes that belong to something are those in use
  have hdom : (fun a => ∃ a', w.owns a a') =
      fun a => P a ∨ h₀.scopes.size ≤ a ∧ a < m.heap.scopes.size := by
    funext a
    refine propext ⟨?_, fun ha => ⟨_, htracks.owns_iff.2 ⟨ha, rfl⟩⟩⟩
    rintro ⟨a', ha⟩
    exact (htracks.owns_iff.1 ha).1
  rw [← hdom]
  exact hfits.sound htracks.sees_owns

/-- Two runs that correspond end in the same way, and sound. -/
theorem step_sameEnd {x y : Eval Value} {Q : Matching → Value → Value → Prop}
    (hxy : (agreement h₀ h₀' P).Related .neither w Q x y) (hQ : ∀ {w v v'}, Q w v v' → w.Alike v v')
    (hm : (agreement h₀ h₀' P).Machines w m m') :
    SameEnd h₀ h₀' P (m.step x) (m'.step y) ∧ (m.step x).2.heap.Sound fun a =>
      P a ∨ h₀.scopes.size ≤ a ∧ a < (m.step x).2.heap.scopes.size := by
  have hends := hxy w (Matching.le_refl w) m m' hm
  unfold Machine.step
  generalize x m = r at hends ⊢
  generalize y m' = r' at hends ⊢
  cases hends with
  | value _ hm₁ hv =>
    have hresult := hm₁.heaps.2.eq_renumber (hQ hv)
    exact ⟨hm₁.sameEnd (congrArg Except.ok hresult), hm₁.sound⟩
  | halt _ hm₁ => exact ⟨hm₁.sameEnd rfl, hm₁.sound⟩
  | firstCut hs | secondCut hs => cases hs

end Ends

/-! ## The whole -/

/-- Two machines that agree on the scopes with a property, where both are sound. -/
structure Machine.Agree (P : ScopeId → Prop) (m m' : Machine) : Prop where
  sound : m.heap.Sound P
  sound' : m'.heap.Sound P
  scopes : m.heap.AgreeOn P m'.heap
  output : m.output = m'.output
  trace : m.trace = m'.trace

theorem Machine.Agree.refl {P : ScopeId → Prop} {m : Machine} (hsound : m.heap.Sound P) : m.Agree P m :=
  ⟨hsound, hsound, fun _ _ => ⟨rfl, fun _ => rfl⟩, rfl, rfl⟩

theorem Machine.Agree.machines {P : ScopeId → Prop} {m m' : Machine} (hagree : m.Agree P m') :
    (agreement m.heap m'.heap P).Machines (.shared P m.heap.functions m'.heap.functions) m m' :=
  ⟨⟨hagree.sound.fits hagree.sound' hagree.scopes, Tracks.start hagree.sound.present⟩, hagree.output,
    hagree.trace⟩

/-- The scopes of the functions among some values. -/
def scopesOf (vs : List Value) (id : ScopeId) : Prop :=
  ∃ v ∈ vs, ∃ f, v.closure? = some f ∧ f.scope = id

/-- The functions among some values have numbers below a bound. -/
def Numbered (vs : List Value) (bound : Nat) : Prop :=
  ∀ v ∈ vs, ∀ f, v.closure? = some f → f.id < bound

section Runs

variable {m m' : Machine} {scope : ScopeId} {settings : Settings} {fuel depth : Nat}

theorem node_sameEnd (hagree : m.Agree (m.heap.Reaches (· = scope)) m') (node : Option Node) :
    SameEnd m.heap m'.heap (m.heap.Reaches (· = scope)) (m.step (evalNode settings fuel scope node))
        (m'.step (evalNode settings fuel scope node)) ∧
      (m.step (evalNode settings fuel scope node)).2.heap.Sound fun a => m.heap.Reaches (· = scope) a ∨
        m.heap.scopes.size ≤ a ∧ a < (m.step (evalNode settings fuel scope node)).2.heap.scopes.size := by
  have hfuel : Slack.neither.Allows fuel fuel := rfl
  have howns : (Matching.shared (m.heap.Reaches (· = scope)) m.heap.functions m'.heap.functions).owns scope
      scope := ⟨rfl, .root rfl⟩
  exact step_sameEnd (Correspondence.node_yields hfuel howns node) (fun hv => hv.1) hagree.machines

theorem alike_shared {vs : List Value} {P : ScopeId → Prop} {k k' : Nat} (hscopes : ∀ id, scopesOf vs id → P id)
    (hk : Numbered vs k) (hk' : Numbered vs k') {v : Value} (hv : v ∈ vs) : (Matching.shared P k k').Alike v v :=
  .refl fun f hf => ⟨⟨rfl, hk v hv f hf, hk' v hv f hf⟩, rfl, hscopes _ ⟨v, hv, f, hf, rfl⟩⟩

theorem apply_sameEnd {f : Closure} {vs : List Value}
    (hagree : m.Agree (m.heap.Reaches (scopesOf (.function f :: vs))) m')
    (hk : Numbered (.function f :: vs) m.heap.functions) (hk' : Numbered (.function f :: vs) m'.heap.functions) :
    SameEnd m.heap m'.heap (m.heap.Reaches (scopesOf (.function f :: vs)))
      (m.step (applyFunction settings fuel depth f vs)) (m'.step (applyFunction settings fuel depth f vs)) := by
  have hruns : (agreement m.heap m'.heap (m.heap.Reaches (scopesOf (.function f :: vs)))).Runs .neither
      settings fuel fuel := Correspondence.runs_all _ settings rfl
  have halike {v : Value} (hv : v ∈ Value.function f :: vs) :
      (Matching.shared (m.heap.Reaches (scopesOf (.function f :: vs))) m.heap.functions
        m'.heap.functions).Alike v v := alike_shared (fun _ => .root) hk hk' hv
  have hvs : (agreement m.heap m'.heap (m.heap.Reaches (scopesOf (.function f :: vs)))).Arguments _ vs vs :=
    List.forall₂_same.2 fun v hv => ⟨halike (List.mem_cons_of_mem _ hv), Or.inl trivial⟩
  exact (step_sameEnd (hruns.apply (halike List.mem_cons_self) hvs depth) (fun hv => hv.1) hagree.machines).1

theorem apply_untouched {f : Closure} {vs : List Value} {id : ScopeId} (hlt : id < m.heap.scopes.size)
    (hid : ¬ m.heap.Reaches (scopesOf (.function f :: vs)) id) :
    (m.step (applyFunction settings fuel depth f vs)).2.heap.scopes[id]? = m.heap.scopes[id]? := by
  have hruns := Discipline.runs_all (confinement m.heap (m.heap.Reaches (scopesOf (.function f :: vs)))) settings fuel
  have hvs {v : Value} (hv : v ∈ .function f :: vs) (g : Closure) (hg : g ∈ v.closure?) :
      m.heap.Usable (m.heap.Reaches (scopesOf (.function f :: vs))) g.scope :=
    Or.inl (.root ⟨v, hv, g, hg, rfl⟩)
  exact step_untouched (hruns.apply (hvs List.mem_cons_self f rfl) (fun v hv => hvs (List.mem_cons_of_mem _ hv)) depth)
    hlt hid

end Runs

/-- A root scope that binds no function is sound, and nothing else can be reached from it. -/
theorem Heap.sound_lone {h : Heap} {id : ScopeId} (hlt : id < h.scopes.size) (houter : h.outer? id = none)
    (hbinding : ∀ name b, h.binding? id name = some b → b.value.closure? = none) : h.Sound (· = id) := by
  constructor
  · rintro _ rfl
    exact hlt
  · rintro _ o rfl ho
    rw [houter] at ho
    contradiction
  · rintro _ o rfl ho
    rw [houter] at ho
    contradiction
  · rintro _ name b f rfl hb hf
    rw [hbinding name b hb] at hf
    contradiction
  · rintro _ name b f rfl hb hf
    rw [hbinding name b hb] at hf
    contradiction

theorem sound_root : Machine.fresh.heap.Sound (· = 0) :=
  Heap.sound_lone Nat.zero_lt_one rfl fun _ _ hb => nomatch hb

theorem sound_fresh : Machine.fresh.heap.Sound (Machine.fresh.heap.Reaches (· = 0)) :=
  sound_root.reaches fun _ => id

/-- Whatever is run in a scope leaves alone what cannot be reached from there, and does the same in every
    heap that agrees on what can be reached, up to the numbers of what it makes; so does a call, for what
    can be reached from the function and the arguments.  What can be reached is sound at the start of a
    session and stays so. -/
theorem evaluation_is_local (m : Machine) (settings : Settings) (fuel : Nat) :
    (∀ scope node,
      (∀ id, id < m.heap.scopes.size → ¬ m.heap.Reaches (· = scope) id →
        (m.step (evalNode settings fuel scope node)).2.heap.scopes[id]? = m.heap.scopes[id]?) ∧
      (∀ m', m.Agree (m.heap.Reaches (· = scope)) m' →
        SameEnd m.heap m'.heap (m.heap.Reaches (· = scope)) (m.step (evalNode settings fuel scope node))
          (m'.step (evalNode settings fuel scope node))) ∧
      (m.heap.Sound (m.heap.Reaches (· = scope)) →
        (m.step (evalNode settings fuel scope node)).2.heap.Sound
          ((m.step (evalNode settings fuel scope node)).2.heap.Reaches (· = scope)))) ∧
    (∀ depth f vs,
      (∀ id, id < m.heap.scopes.size → ¬ m.heap.Reaches (scopesOf (.function f :: vs)) id →
        (m.step (applyFunction settings fuel depth f vs)).2.heap.scopes[id]? = m.heap.scopes[id]?) ∧
      ∀ m', m.Agree (m.heap.Reaches (scopesOf (.function f :: vs))) m' →
        Numbered (.function f :: vs) m.heap.functions → Numbered (.function f :: vs) m'.heap.functions →
        SameEnd m.heap m'.heap (m.heap.Reaches (scopesOf (.function f :: vs)))
          (m.step (applyFunction settings fuel depth f vs)) (m'.step (applyFunction settings fuel depth f vs))) ∧
    Machine.fresh.heap.Sound (Machine.fresh.heap.Reaches (· = 0)) := by
  refine ⟨fun scope node => ⟨?_, ?_, ?_⟩, fun depth f vs => ⟨?_, ?_⟩, sound_fresh⟩
  · intro id hlt hid
    exact step_untouched (Discipline.node_yields (Or.inl (.root rfl)) node) hlt hid
  · intro m' hagree
    exact (node_sameEnd hagree node).1
  · intro hsound
    refine (node_sameEnd (.refl hsound) node).2.reaches ?_
    rintro id rfl
    exact Or.inl (.root rfl)
  · intro id hlt hid
    exact apply_untouched hlt hid
  · intro m' hagree hk hk'
    exact apply_sameEnd hagree hk hk'

/-- `{ var x = 1; return fn(): int { return x; }; }` run in the root scope, without and with another root
    scope that binds `x`. -/
theorem evaluation_is_local_hidden :
    let t : Token := ⟨.ident, "", 1, 1⟩
    let x : Name := ⟨t, "x"⟩
    let body : Block := .mk t [.ret t (some (.name x))]
    let s : Stmt := .block (.mk t [.var t x none (some (.int t 1)), .ret t (some (.function t [] ⟨t, "int"⟩ body))])
    let m' : Machine := ⟨((Machine.fresh.heap.alloc none).2.define 1 "x" (.int 5) false).2, "", #[]⟩
    Machine.fresh.Agree (Machine.fresh.heap.Reaches (· = 0)) m' ∧
      (m'.step (evalNode {} 10 0 (some (.stmt s)))).1 =
        .ok (.returned (.function ⟨0, none, [], ⟨t, "int"⟩, body, 2⟩)) ∧
    (¬ m'.heap.Reaches (· = 0) 1 ∧
      (m'.step (evalNode {} 10 0 (some (.stmt s)))).2.heap.scopes[1]? = m'.heap.scopes[1]?) := by
  intro t x body s m'
  have hsound : m'.heap.Sound (· = 0) := Heap.sound_lone (by decide) rfl fun _ _ hb => nomatch hb
  have hreaches : Machine.fresh.heap.Reaches (· = 0) = (· = 0) := by
    funext i
    exact propext ⟨sound_root.reached fun _ => id, fun hi => .root hi⟩
  have hagree : Machine.fresh.Agree (Machine.fresh.heap.Reaches (· = 0)) m' := by
    rw [hreaches]
    refine ⟨sound_root, hsound, ?_, rfl, rfl⟩
    rintro id rfl
    exact ⟨rfl, fun _ => rfl⟩
  have hhidden : ¬ m'.heap.Reaches (· = 0) 1 := fun h => nomatch hsound.reached (fun _ => id) h
  have hsame := ((evaluation_is_local .fresh {} 10).1 0 (some (.stmt s))).2.1 m' hagree
  refine ⟨hagree, ?_, hhidden, ((evaluation_is_local m' {} 10).1 0 (some (.stmt s))).1 1 (by decide) hhidden⟩
  rw [hsame.result]
  rfl

end ScriptLang
