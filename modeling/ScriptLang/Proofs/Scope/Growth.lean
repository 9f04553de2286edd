import ScriptLang.Proofs.Scope.Heap
import ScriptLang.Proofs.Value.Clean

/-!
  How a heap grows.

  `Grows h h'` says what may happen to a heap: a scope keeps its outer scope, a name stays bound and
  stays constant or not, a constant keeps its value, and a new scope lies inside an older one.  Each
  operation on a heap makes it grow, growth is transitive, and a heap whose chains of outer scopes are
  well founded keeps them so.  For the last the heap has to be `Closed`: it mentions only scopes that
  it has.
-/

namespace ScriptLang.Heap

variable {h h' h'' : Heap} {id : ScopeId} {name : String} {v : Value}

/-- The scope around a scope. -/
def outer? (h : Heap) (id : ScopeId) : Option ScopeId := h.scopes[id]?.bind (·.outer)

/-- The chains of outer scopes are finite and go in no circle. -/
def Founded (h : Heap) : Prop := WellFounded fun outer id => h.outer? id = some outer

/-- Outer scopes and the scopes of functions are scopes of the heap. -/
structure Closed (h : Heap) : Prop where
  outer : ∀ {id o}, h.outer? id = some o → o < h.scopes.size
  closures : ∀ {id name b}, h.binding? id name = some b → ∀ f ∈ b.value.closure?, f.scope < h.scopes.size

/-- What a run may do to a heap. -/
structure Grows (h h' : Heap) : Prop where
  size_le : h.scopes.size ≤ h'.scopes.size
  outer : ∀ id < h.scopes.size, h'.outer? id = h.outer? id
  made : ∀ id, h.scopes.size ≤ id → id < h'.scopes.size → ∃ o < id, h'.outer? id = some o
  bindings : ∀ {id name b}, h.binding? id name = some b →
    ∃ b', h'.binding? id name = some b' ∧ b'.constant = b.constant ∧ (b.constant = true → b' = b)

/-! ## Outer scopes under the operations -/

theorem outer?_alloc (outer : Option ScopeId) (i : ScopeId) :
    (h.alloc outer).2.outer? i = if i = h.scopes.size then outer else h.outer? i := by
  unfold outer?
  rw [scopes_alloc]
  split <;> rfl

theorem outer?_define (constant : Bool) (i : ScopeId) :
    (h.define id name v constant).2.outer? i = h.outer? i := by
  rcases define_cases h id name v constant with ⟨-, heq⟩ | ⟨-, -, -, hscopes⟩
  · rw [heq]
  · unfold outer?
    rw [hscopes]
    split
    · rw [Option.bind_map]
      rfl
    · rfl

theorem outer?_assign (i : ScopeId) : (h.assign id name v).2.outer? i = h.outer? i := by
  rcases assign_cases h id name v with ⟨e, heq⟩ | ⟨owner, b, -, -, -, -, hscopes⟩
  · rw [heq]
  · unfold outer?
    rw [hscopes]
    split
    · rw [Option.bind_map]
      rfl
    · rfl

/-- Only scopes of the heap have an outer scope. -/
theorem lt_size_of_outer? {o : ScopeId} (ho : h.outer? id = some o) : id < h.scopes.size := by
  obtain ⟨s, hs, -⟩ := Option.bind_eq_some_iff.1 ho
  exact (Array.getElem?_eq_some_iff.1 hs).1

/-! ## Growth -/

namespace Grows

theorem refl (h : Heap) : h.Grows h where
  size_le := Nat.le_refl _
  outer _ _ := rfl
  made _ hle hlt := absurd hlt (Nat.not_lt_of_le hle)
  bindings {_ _ b} hb := ⟨b, hb, rfl, fun _ => rfl⟩

theorem trans (hg : h.Grows h') (hg' : h'.Grows h'') : h.Grows h'' where
  size_le := Nat.le_trans hg.size_le hg'.size_le
  outer id hid := by rw [hg'.outer id (Nat.lt_of_lt_of_le hid hg.size_le), hg.outer id hid]
  made id hle hlt := by
    by_cases hid : id < h'.scopes.size
    · obtain ⟨o, ho, hout⟩ := hg.made id hle hid
      exact ⟨o, ho, by rw [hg'.outer id hid, hout]⟩
    · exact hg'.made id (Nat.le_of_not_lt hid) hlt
  bindings hb := by
    obtain ⟨b', hb', hconstant, hsame⟩ := hg.bindings hb
    obtain ⟨b'', hb'', hconstant', hsame'⟩ := hg'.bindings hb'
    refine ⟨b'', hb'', hconstant'.trans hconstant, fun hc => ?_⟩
    rw [hsame' (hconstant.trans hc), hsame hc]

/-- The new scope lies inside a scope of the heap, which is older. -/
theorem alloc (hid : id < h.scopes.size) : h.Grows (h.alloc (some id)).2 where
  size_le := by rw [size_alloc]; exact Nat.le_succ _
  outer i hi := by rw [outer?_alloc, if_neg (Nat.ne_of_lt hi)]
  made i hle hlt := by
    rw [size_alloc] at hlt
    have hi : i = h.scopes.size := Nat.le_antisymm (Nat.le_of_lt_succ hlt) hle
    exact ⟨id, Nat.lt_of_lt_of_le hid hle, by rw [outer?_alloc, if_pos hi]⟩
  bindings {_ _ b} hb := ⟨b, by rw [binding?_alloc, hb], rfl, fun _ => rfl⟩

theorem define (h : Heap) (id : ScopeId) (name : String) (v : Value) (constant : Bool) :
    h.Grows (h.define id name v constant).2 where
  size_le := Nat.le_of_eq (size_define constant).symm
  outer i _ := outer?_define constant i
  made i hle hlt := by
    rw [size_define] at hlt
    exact absurd hlt (Nat.not_lt_of_le hle)
  bindings {_ _ b} hb := ⟨b, binding?_define_old hb, rfl, fun _ => rfl⟩

theorem assign (h : Heap) (id : ScopeId) (name : String) (v : Value) : h.Grows (h.assign id name v).2 where
  size_le := Nat.le_of_eq size_assign.symm
  outer i _ := outer?_assign i
  made i hle hlt := by
    rw [size_assign] at hlt
    exact absurd hlt (Nat.not_lt_of_le hle)
  bindings := binding?_assign_old

/-- An old scope has its old chain, which is founded; a new one lies inside an older one, so the
    induction for these is on the number. -/
theorem founded (hg : h.Grows h') (hclosed : h.Closed) (hfounded : h.Founded) : h'.Founded := by
  have hold : ∀ id, id < h.scopes.size → Acc (fun outer id => h'.outer? id = some outer) id := by
    intro id
    induction id using hfounded.induction with
    | _ id ih =>
      intro hid
      refine Acc.intro id fun o ho => ?_
      rw [hg.outer id hid] at ho
      exact ih o ho (hclosed.outer ho)
  refine ⟨fun id => ?_⟩
  induction id using Nat.strongRecOn with
  | _ id ih =>
    refine Acc.intro id fun o ho => ?_
    by_cases hid : id < h.scopes.size
    · exact (hold id hid).inv ho
    · obtain ⟨p, hp, hout⟩ := hg.made id (Nat.le_of_not_lt hid) (lt_size_of_outer? ho)
      obtain rfl : p = o := Option.some.inj (hout.symm.trans ho)
      exact ih p hp

end Grows

/-! ## Heaps that mention only their own scopes -/

namespace Closed

theorem alloc (hclosed : h.Closed) (hid : id < h.scopes.size) : (h.alloc (some id)).2.Closed where
  outer {i o} ho := by
    rw [outer?_alloc] at ho
    rw [size_alloc]
    split at ho
    · cases ho
      exact Nat.lt_succ_of_lt hid
    · exact Nat.lt_succ_of_lt (hclosed.outer ho)
  closures {_ _ b} hb f hf := by
    rw [binding?_alloc] at hb
    rw [size_alloc]
    exact Nat.lt_succ_of_lt (hclosed.closures hb f hf)

theorem define (hclosed : h.Closed) (hv : ∀ f ∈ v.closure?, f.scope < h.scopes.size)
    (constant : Bool) : (h.define id name v constant).2.Closed where
  outer {i o} ho := by
    rw [outer?_define] at ho
    rw [size_define]
    exact hclosed.outer ho
  closures {_ _ b} hb f hf := by
    rw [size_define]
    rcases binding?_define hb with hold | ⟨-, rfl⟩
    · exact hclosed.closures hold f hf
    · exact hv f hf

theorem assign (hclosed : h.Closed) (hv : ∀ f ∈ v.closure?, f.scope < h.scopes.size) :
    (h.assign id name v).2.Closed where
  outer {i o} ho := by
    rw [outer?_assign] at ho
    rw [size_assign]
    exact hclosed.outer ho
  closures {_ _ b} hb f hf := by
    rw [size_assign]
    rcases binding?_assign hb with hold | rfl
    · exact hclosed.closures hold f hf
    · exact hv f hf

end Closed

end ScriptLang.Heap
