import ScriptLang.Scope

/-!
  What the operations on the heap do to each scope.

  Every change of the heap is one of three: a new scope without bindings, a new binding in one scope,
  a new value for one binding that is not constant.  The lemmas here say this scope by scope, and what
  it means for the bindings.
-/

namespace ScriptLang.Heap

variable (h : Heap) (id : ScopeId) (name : String) (v : Value)

/-! ## Scopes -/

theorem scopes_alloc (outer : Option ScopeId) (i : ScopeId) :
    (h.alloc outer).2.scopes[i]? = if i = h.scopes.size then some ⟨outer, []⟩ else h.scopes[i]? := by
  show (h.scopes.push _)[i]? = _
  exact Array.getElem?_push

/-- A declaration is refused or adds one binding to one scope. -/
theorem define_cases (constant : Bool) :
    ((h.binding? id name).isSome = true ∧
      h.define id name v constant = (.error (.redeclared name), h)) ∨
    h.binding? id name = none ∧ (h.define id name v constant).1 = v ∧
      (h.define id name v constant).2.functions = h.functions ∧
      ∀ i, (h.define id name v constant).2.scopes[i]? =
        if i = id then h.scopes[i]?.map (·.insert name ⟨v, constant⟩) else h.scopes[i]? := by
  unfold define
  cases hb : h.binding? id name with
  | some b => exact Or.inl ⟨rfl, rfl⟩
  | none =>
    refine Or.inr ⟨rfl, rfl, rfl, fun i => ?_⟩
    show (h.scopes.modify id _)[i]? = _
    rw [Array.getElem?_modify]
    simp only [eq_comm]

/-- An assignment is refused or changes the value of one binding that is not constant. -/
theorem assign_cases :
    (∃ e, h.assign id name v = (.error e, h)) ∨
    ∃ owner b, h.resolve? id name = some (owner, b) ∧ b.constant = false ∧
      (h.assign id name v).1 = v ∧ (h.assign id name v).2.functions = h.functions ∧
      ∀ i, (h.assign id name v).2.scopes[i]? =
        if i = owner then h.scopes[i]?.map (·.update name v) else h.scopes[i]? := by
  unfold assign
  cases hr : h.resolve? id name with
  | none => exact Or.inl ⟨_, rfl⟩
  | some r =>
    obtain ⟨owner, b⟩ := r
    cases hb : b.constant with
    | true => exact Or.inl ⟨.constantTarget name, by simp only [hb, if_true]⟩
    | false =>
      refine Or.inr ⟨owner, b, rfl, hb, ?_⟩
      simp only [hb, Bool.false_eq_true, if_false]
      refine ⟨trivial, trivial, fun i => ?_⟩
      rw [Array.getElem?_modify]
      simp only [eq_comm]

/-! ## Bindings -/

variable {h id name v}

theorem resolve?_some {owner : ScopeId} {b : Binding} (hr : h.resolve? id name = some (owner, b)) :
    h.binding? owner name = some b := by
  obtain ⟨s, -, hs⟩ := List.exists_of_findSome?_eq_some hr
  obtain ⟨b', hb', heq⟩ := Option.map_eq_some_iff.1 hs
  obtain ⟨rfl, rfl⟩ := Prod.mk.inj heq
  exact hb'

theorem get?_some (hg : h.get? id name = some v) :
    ∃ owner b, h.binding? owner name = some b ∧ b.value = v := by
  obtain ⟨⟨owner, b⟩, hr, hv⟩ := Option.map_eq_some_iff.1 hg
  exact ⟨owner, b, resolve?_some hr, hv⟩

theorem binding?_eq_some {b : Binding} :
    h.binding? id name = some b ↔ ∃ s, h.scopes[id]? = some s ∧ s.find? name = some b :=
  Option.bind_eq_some_iff

/-- A scope sees its own bindings first. -/
theorem get?_of_binding? {b : Binding} (hb : h.binding? id name = some b) :
    h.get? id name = some b.value := by
  obtain ⟨s, hs, -⟩ := binding?_eq_some.1 hb
  have hsize : h.scopes.size = h.scopes.size - 1 + 1 :=
    (Nat.sub_add_cancel (Nat.zero_lt_of_lt (Array.getElem?_eq_some_iff.1 hs).1)).symm
  obtain ⟨rest, hchain⟩ : ∃ rest, h.chain id = id :: rest := by
    unfold chain
    rw [hsize, chainUpTo, hs]
    dsimp only
    cases s.outer with
    | none => exact ⟨[], rfl⟩
    | some outer => exact ⟨_, rfl⟩
  unfold get? resolve?
  rw [hchain, List.findSome?_cons, hb]
  rfl

theorem binding?_alloc (outer : Option ScopeId) (i : ScopeId) (n : String) :
    (h.alloc outer).2.binding? i n = h.binding? i n := by
  unfold binding?
  rw [scopes_alloc]
  by_cases hi : i = h.scopes.size
  · subst hi
    simp [Scope.find?]
  · rw [if_neg hi]

/-- After a declaration every binding is an old one or the new one. -/
theorem binding?_define {constant : Bool} {i : ScopeId} {n : String} {b : Binding}
    (hb : (h.define id name v constant).2.binding? i n = some b) :
    h.binding? i n = some b ∨ n = name ∧ b = ⟨v, constant⟩ := by
  rcases define_cases h id name v constant with ⟨-, heq⟩ | ⟨-, -, -, hscopes⟩
  · rw [heq] at hb
    exact Or.inl hb
  obtain ⟨s, hs, hfind⟩ := binding?_eq_some.1 hb
  rw [hscopes] at hs
  split at hs
  · obtain ⟨s', hs', rfl⟩ := Option.map_eq_some_iff.1 hs
    rw [Scope.find?_insert] at hfind
    split at hfind
    · rename_i hn
      exact Or.inr ⟨hn, (Option.some.inj hfind).symm⟩
    · exact Or.inl (binding?_eq_some.2 ⟨s', hs', hfind⟩)
  · exact Or.inl (binding?_eq_some.2 ⟨s, hs, hfind⟩)

theorem binding?_define_old {constant : Bool} {i : ScopeId} {n : String} {b : Binding}
    (hb : h.binding? i n = some b) : (h.define id name v constant).2.binding? i n = some b := by
  rcases define_cases h id name v constant with ⟨-, heq⟩ | ⟨hnew, -, -, hscopes⟩
  · rwa [heq]
  obtain ⟨s, hs, hfind⟩ := binding?_eq_some.1 hb
  refine binding?_eq_some.2 ?_
  rw [hscopes]
  split
  · rename_i hi
    subst hi
    refine ⟨_, by rw [hs]; rfl, ?_⟩
    have hne : n ≠ name := by
      rintro rfl
      rw [hb] at hnew
      contradiction
    rw [Scope.find?_insert, if_neg hne, hfind]
  · exact ⟨s, hs, hfind⟩

theorem binding?_define_self {constant : Bool} (hid : id < h.scopes.size)
    (hnew : h.binding? id name = none) :
    (h.define id name v constant).2.binding? id name = some ⟨v, constant⟩ := by
  rcases define_cases h id name v constant with ⟨hsome, -⟩ | ⟨-, -, -, hscopes⟩
  · rw [hnew] at hsome
    contradiction
  obtain ⟨s, hs⟩ : ∃ s, h.scopes[id]? = some s := ⟨_, Array.getElem?_eq_getElem hid⟩
  refine binding?_eq_some.2 ⟨s.insert name ⟨v, constant⟩, ?_, ?_⟩
  · rw [hscopes, if_pos rfl, hs]
    rfl
  · rw [Scope.find?_insert, if_pos rfl]

/-- What is bound after a declaration that is not refused. -/
theorem binding?_define_new {constant : Bool} (hid : id < h.scopes.size) (hnew : h.binding? id name = none)
    (i : ScopeId) (n : String) :
    (h.define id name v constant).2.binding? i n =
      if i = id ∧ n = name then some ⟨v, constant⟩ else h.binding? i n := by
  by_cases hi : i = id ∧ n = name
  · obtain ⟨rfl, rfl⟩ := hi
    rw [if_pos ⟨rfl, rfl⟩]
    exact binding?_define_self hid hnew
  rw [if_neg hi]
  cases hb : h.binding? i n with
  | some b => exact binding?_define_old hb
  | none =>
    rcases define_cases h id name v constant with ⟨-, heq⟩ | ⟨-, -, -, hscopes⟩
    · rw [heq]
      exact hb
    unfold binding? at hb ⊢
    rw [hscopes]
    by_cases hid' : i = id
    · have hn : n ≠ name := fun hn => hi ⟨hid', hn⟩
      rw [if_pos hid', Option.bind_map]
      simpa only [Function.comp_def, Scope.find?_insert, if_neg hn] using hb
    · rw [if_neg hid']
      exact hb

theorem functions_define (constant : Bool) : (h.define id name v constant).2.functions = h.functions := by
  rcases define_cases h id name v constant with ⟨-, heq⟩ | ⟨-, -, heq, -⟩
  · rw [heq]
  · exact heq

theorem size_define (constant : Bool) :
    (h.define id name v constant).2.scopes.size = h.scopes.size := by
  unfold define
  split
  · rfl
  · exact Array.size_modify

/-- After an assignment every binding is an old one or has the new value. -/
theorem binding?_assign {i : ScopeId} {n : String} {b : Binding}
    (hb : (h.assign id name v).2.binding? i n = some b) :
    h.binding? i n = some b ∨ b.value = v := by
  rcases assign_cases h id name v with ⟨e, heq⟩ | ⟨owner, old, -, -, -, -, hscopes⟩
  · rw [heq] at hb
    exact Or.inl hb
  obtain ⟨s, hs, hfind⟩ := binding?_eq_some.1 hb
  rw [hscopes] at hs
  split at hs
  · obtain ⟨s', hs', rfl⟩ := Option.map_eq_some_iff.1 hs
    rw [Scope.find?_update] at hfind
    obtain ⟨b', hb', rfl⟩ := Option.map_eq_some_iff.1 hfind
    split
    · exact Or.inr rfl
    · exact Or.inl (binding?_eq_some.2 ⟨s', hs', hb'⟩)
  · exact Or.inl (binding?_eq_some.2 ⟨s, hs, hfind⟩)

/-- An assignment keeps every binding bound and constant or not, and changes no constant. -/
theorem binding?_assign_old {i : ScopeId} {n : String} {b : Binding} (hb : h.binding? i n = some b) :
    ∃ b', (h.assign id name v).2.binding? i n = some b' ∧ b'.constant = b.constant ∧
      (b.constant = true → b' = b) := by
  rcases assign_cases h id name v with ⟨e, heq⟩ | ⟨owner, old, hr, hold, -, -, hscopes⟩
  · rw [heq]
    exact ⟨b, hb, rfl, fun _ => rfl⟩
  obtain ⟨s, hs, hfind⟩ := binding?_eq_some.1 hb
  by_cases hi : i = owner
  · subst hi
    have hfind' : (s.update name v).find? n = some (if n = name then { b with value := v } else b) := by
      rw [Scope.find?_update, hfind]
      rfl
    refine ⟨_, binding?_eq_some.2 ⟨s.update name v, by rw [hscopes, if_pos rfl, hs]; rfl, hfind'⟩, ?_⟩
    split
    · rename_i hn
      subst hn
      have hb' := resolve?_some hr
      rw [hb] at hb'
      cases hb'
      exact ⟨rfl, fun hconstant => by rw [hold] at hconstant; contradiction⟩
    · exact ⟨rfl, fun _ => rfl⟩
  · exact ⟨b, binding?_eq_some.2 ⟨s, by rw [hscopes, if_neg hi, hs], hfind⟩, rfl, fun _ => rfl⟩

theorem assign_unknown (hr : h.resolve? id name = none) :
    h.assign id name v = (.error (.unknownTarget name), h) := by
  unfold assign
  rw [hr]

theorem assign_constant {owner : ScopeId} {b : Binding} (hr : h.resolve? id name = some (owner, b))
    (hb : b.constant = true) : h.assign id name v = (.error (.constantTarget name), h) := by
  unfold assign
  rw [hr]
  exact if_pos hb

/-- What an assignment that is not refused gives, and what is bound after it. -/
theorem assign_variable {owner : ScopeId} {b : Binding} (hr : h.resolve? id name = some (owner, b))
    (hb : b.constant = false) :
    (h.assign id name v).1 = v ∧ ∀ i n, (h.assign id name v).2.binding? i n =
      if i = owner ∧ n = name then some { b with value := v } else h.binding? i n := by
  have heq : h.assign id name v = (v, ⟨h.scopes.modify owner (·.update name v), h.functions⟩) := by
    unfold assign
    rw [hr]
    exact if_neg (Bool.eq_false_iff.1 hb)
  rw [heq]
  refine ⟨rfl, fun i n => ?_⟩
  have hscope : (⟨h.scopes.modify owner (·.update name v), h.functions⟩ : Heap).binding? i n =
      (if owner = i then h.scopes[i]?.map (·.update name v) else h.scopes[i]?).bind (·.find? n) := by
    unfold binding?
    rw [Array.getElem?_modify]
  rw [hscope]
  by_cases hi : owner = i
  · subst hi
    obtain ⟨s, hs, hfind⟩ := binding?_eq_some.1 (resolve?_some hr)
    have hold : h.binding? owner n = s.find? n := by
      unfold binding?
      rw [hs]
      rfl
    rw [if_pos rfl, hs, hold]
    show (s.update name v).find? n = _
    rw [Scope.find?_update]
    by_cases hn : n = name
    · subst hn
      rw [hfind, if_pos ⟨rfl, rfl⟩, Option.map_some, if_pos rfl]
    · rw [if_neg fun h => hn h.2]
      simp only [if_neg hn, Option.map_id']
  · rw [if_neg hi, if_neg fun h => hi h.1.symm]
    rfl

theorem functions_assign : (h.assign id name v).2.functions = h.functions := by
  rcases assign_cases h id name v with ⟨e, heq⟩ | ⟨owner, b, -, -, -, heq, -⟩
  · rw [heq]
  · exact heq

theorem size_assign : (h.assign id name v).2.scopes.size = h.scopes.size := by
  unfold assign
  split
  · rfl
  · split
    · rfl
    · exact Array.size_modify

theorem size_alloc (outer : Option ScopeId) :
    (h.alloc outer).2.scopes.size = h.scopes.size + 1 :=
  Array.size_push _

end ScriptLang.Heap
