import ScriptLang.Proofs.Scope.Heap

/-!
  The names that a scope binds.

  Only a declaration changes them, and it puts one new name in front.  A change of the heap that leaves
  the names of all scopes as they were, apart from new scopes, keeps names.
-/

namespace ScriptLang.Heap

/-- The names that a scope itself binds, the latest first. -/
def names (h : Heap) (id : ScopeId) : List String :=
  h.scopes[id]?.elim [] fun s => s.bindings.map (·.1)

variable {h : Heap} {id : ScopeId} {name : String} {v : Value}

theorem names_congr {h' : Heap} (hscope : h'.scopes[id]? = h.scopes[id]?) : h'.names id = h.names id := by
  unfold names
  rw [hscope]

theorem binding?_eq_none : h.binding? id name = none ↔ name ∉ h.names id := by
  unfold binding? names
  cases h.scopes[id]? with
  | none => exact ⟨fun _ => List.not_mem_nil, fun _ => rfl⟩
  | some s =>
    show s.bindings.lookup name = none ↔ name ∉ s.bindings.map (·.1)
    rw [List.lookup_eq_none_iff, List.mem_map, not_exists]
    refine forall_congr' fun p => ?_
    rw [not_and, bne_iff_ne, ne_comm]

theorem names_alloc {i : ScopeId} (outer : Option ScopeId) (hi : i < h.scopes.size) :
    (h.alloc outer).2.names i = h.names i := by
  apply names_congr
  rw [scopes_alloc, if_neg (Nat.ne_of_lt hi)]

theorem names_define_ne {i : ScopeId} (constant : Bool) (hi : i ≠ id) :
    (h.define id name v constant).2.names i = h.names i := by
  apply names_congr
  rcases define_cases h id name v constant with ⟨-, heq⟩ | ⟨-, -, -, hscopes⟩
  · rw [heq]
  · rw [hscopes, if_neg hi]

theorem names_define_new (constant : Bool) (hid : id < h.scopes.size) (hnew : name ∉ h.names id) :
    (h.define id name v constant).2.names id = name :: h.names id := by
  rcases define_cases h id name v constant with ⟨hsome, -⟩ | ⟨-, -, -, hscopes⟩
  · rw [binding?_eq_none.2 hnew] at hsome
    contradiction
  · have hs : h.scopes[id]? = some h.scopes[id] := Array.getElem?_eq_getElem hid
    unfold names
    rw [hscopes, if_pos rfl, hs]
    rfl

theorem names_assign (i : ScopeId) : (h.assign id name v).2.names i = h.names i := by
  rcases assign_cases h id name v with ⟨e, heq⟩ | ⟨owner, b, -, -, -, -, hscopes⟩
  · rw [heq]
  by_cases hi : i = owner
  · unfold names
    rw [hscopes, if_pos hi]
    cases h.scopes[i]? with
    | none => rfl
    | some s =>
      show (s.bindings.map _).map _ = s.bindings.map _
      rw [List.map_map]
      rfl
  · apply names_congr
    rw [hscopes, if_neg hi]

/-- Old scopes bind the names they did. -/
structure NamesKept (h h' : Heap) : Prop where
  size_le : h.scopes.size ≤ h'.scopes.size
  names : ∀ id, id < h.scopes.size → h'.names id = h.names id

namespace NamesKept

variable {h₀ : Heap}

theorem refl (h : Heap) : h.NamesKept h := ⟨Nat.le_refl _, fun _ _ => rfl⟩

theorem alloc (hkept : h₀.NamesKept h) (outer : Option ScopeId) : h₀.NamesKept (h.alloc outer).2 := by
  refine ⟨?_, fun id hid => ?_⟩
  · rw [size_alloc]
    exact Nat.le_succ_of_le hkept.size_le
  · rw [names_alloc outer (Nat.lt_of_lt_of_le hid hkept.size_le)]
    exact hkept.names id hid

/-- A new scope may get new names. -/
theorem define (hkept : h₀.NamesKept h) (hid : h₀.scopes.size ≤ id) (name : String) (v : Value)
    (constant : Bool) : h₀.NamesKept (h.define id name v constant).2 := by
  refine ⟨?_, fun i hi => ?_⟩
  · rw [size_define]
    exact hkept.size_le
  · rw [names_define_ne constant (Nat.ne_of_lt (Nat.lt_of_lt_of_le hi hid))]
    exact hkept.names i hi

theorem assign (hkept : h₀.NamesKept h) (id : ScopeId) (name : String) (v : Value) :
    h₀.NamesKept (h.assign id name v).2 := by
  refine ⟨?_, fun i hi => ?_⟩
  · rw [size_assign]
    exact hkept.size_le
  · rw [names_assign]
    exact hkept.names i hi

end NamesKept

end ScriptLang.Heap
