import ScriptLang.Proofs.Scope.Fits

/-!
  What can be reached in a heap.

  From a scope a run gets to the scopes around it, and through the functions that a scope binds to the
  scopes these were made in.  If what can be reached is sound, two heaps that agree on it fit, whatever
  else they hold and whatever numbers they give to the scopes and functions made next.
-/

namespace ScriptLang

namespace Heap

/-- The scopes that can be reached from some scopes. -/
inductive Reaches (h : Heap) (roots : ScopeId → Prop) : ScopeId → Prop
  | root {id : ScopeId} : roots id → h.Reaches roots id
  | outer {id o : ScopeId} : h.Reaches roots id → h.outer? id = some o → h.Reaches roots o
  | captured {id : ScopeId} {name : String} {b : Binding} {f : Closure} : h.Reaches roots id →
      h.binding? id name = some b → b.value.closure? = some f → h.Reaches roots f.scope

/-- The scopes with a property are there, each inside an older one, and so are the scopes and the
    numbers of the functions that they bind.  The property holds of all that is mentioned. -/
structure Sound (h : Heap) (P : ScopeId → Prop) : Prop where
  present : ∀ {id}, P id → id < h.scopes.size
  older : ∀ {id o}, P id → h.outer? id = some o → o < id
  outer : ∀ {id o}, P id → h.outer? id = some o → P o
  numbered : ∀ {id name b f}, P id → h.binding? id name = some b → b.value.closure? = some f →
    f.id < h.functions
  captured : ∀ {id name b f}, P id → h.binding? id name = some b → b.value.closure? = some f → P f.scope

/-- The scopes with a property are the same in both heaps. -/
def AgreeOn (P : ScopeId → Prop) (h h' : Heap) : Prop :=
  ∀ id, P id → h'.outer? id = h.outer? id ∧ ∀ name, h'.binding? id name = h.binding? id name

variable {h h' : Heap} {P roots : ScopeId → Prop} {id : ScopeId} {name : String}

/-- What can be reached from sound scopes is sound. -/
theorem Sound.reached (hsound : h.Sound P) (hroots : ∀ id, roots id → P id) (hid : h.Reaches roots id) :
    P id := by
  induction hid with
  | root hid => exact hroots _ hid
  | outer _ ho ih => exact hsound.outer ih ho
  | captured _ hb hf ih => exact hsound.captured ih hb hf

theorem Sound.reaches (hsound : h.Sound P) (hroots : ∀ id, roots id → P id) : h.Sound (h.Reaches roots) where
  present hid := hsound.present (hsound.reached hroots hid)
  older hid ho := hsound.older (hsound.reached hroots hid) ho
  outer hid ho := hid.outer ho
  numbered hid hb hf := hsound.numbered (hsound.reached hroots hid) hb hf
  captured hid hb hf := hid.captured hb hf

/-! ## Chains -/

/-- A property that outer scopes inherit holds along the chain. -/
theorem chainUpTo_forall (houter : ∀ {id o}, P id → h.outer? id = some o → P o) (hid : P id) (fuel : Nat) :
    ∀ s ∈ h.chainUpTo fuel id, P s := by
  induction fuel generalizing id with
  | zero => exact List.forall_mem_nil _
  | succ fuel ih =>
    unfold chainUpTo
    cases hs : h.scopes[id]? with
    | none => exact List.forall_mem_nil _
    | some s =>
      dsimp only
      cases ho : s.outer with
      | none => exact List.forall_mem_singleton.2 hid
      | some o =>
        have houter' : h.outer? id = some o := by
          unfold outer?
          rw [hs]
          exact ho
        exact List.forall_mem_cons.2 ⟨hid, ih (houter hid houter')⟩

theorem resolve?_owner {owner : ScopeId} {b : Binding} (houter : ∀ {id o}, P id → h.outer? id = some o → P o)
    (hid : P id) (hr : h.resolve? id name = some (owner, b)) : P owner := by
  obtain ⟨s, hs, heq⟩ := List.exists_of_findSome?_eq_some hr
  obtain ⟨b', -, hpair⟩ := Option.map_eq_some_iff.1 heq
  obtain ⟨rfl, -⟩ := Prod.mk.inj hpair
  exact chainUpTo_forall houter hid _ s hs

end Heap

/-! ## Heaps that agree -/

/-- The scopes with a property belong to themselves, and so do the functions that both heaps have. -/
def Matching.shared (P : ScopeId → Prop) (k k' : Nat) : Matching where
  owns a a' := a' = a ∧ P a
  sees a a' := a' = a ∧ P a
  same i i' := i' = i ∧ i < k ∧ i < k'
  owns_sees h := h
  owns_iff := by
    rintro a _ b _ ⟨rfl, -⟩ ⟨rfl, -⟩
    exact Iff.rfl
  same_iff := by
    rintro i _ j _ ⟨rfl, -⟩ ⟨rfl, -⟩
    exact Iff.rfl

namespace Heap

variable {h h' : Heap} {P : ScopeId → Prop} {w : Matching}

theorem Sound.fits (hsound : h.Sound P) (hsound' : h'.Sound P) (hagree : h.AgreeOn P h') :
    Fits (.shared P h.functions h'.functions) h h' where
  seen {a a'} ha := by
    obtain ⟨rfl, ha⟩ := ha
    exact ⟨hsound.present ha, hsound'.present ha⟩
  numbered {i i'} hi := by
    obtain ⟨rfl, hi⟩ := hi
    exact hi
  outer {a a'} ha := by
    obtain ⟨rfl, ha⟩ := ha
    rw [(hagree a' ha).1]
    cases ho : h.outer? a' with
    | none => exact .none
    | some o => exact .some ⟨rfl, hsound.outer ha ho⟩
  older {a a'} ha := by
    obtain ⟨rfl, ha⟩ := ha
    exact ⟨fun o ho => hsound.older ha ho, fun o ho => hsound'.older ha ho⟩
  bindings {a a'} ha name := by
    obtain ⟨rfl, ha⟩ := ha
    have hsame := (hagree a' ha).2 name
    rw [hsame]
    cases hb : h.binding? a' name with
    | none => exact .none
    | some b =>
      rw [hb] at hsame
      -- the function that is bound has a number below both bounds, and a scope with the property
      refine .some ⟨rfl, .refl fun f hf => ⟨⟨rfl, ?_, ?_⟩, rfl, ?_⟩⟩
      · exact hsound.numbered ha hb hf
      · exact hsound'.numbered ha hsame hf
      · exact hsound.captured ha hb hf
  padded ha := Or.inl ha

/-- A function that a scope binds belongs to one of the other heap. -/
theorem Fits.closure? {a a' : ScopeId} {name : String} {b : Binding} {f : Closure} (hfits : Fits w h h')
    (ha : w.owns a a') (hb : h.binding? a name = some b) (hf : b.value.closure? = some f) :
    ∃ i scope, w.same f.id i ∧ w.sees f.scope scope := by
  rcases rel_cases (hfits.bindings ha name) with ⟨hnone, -⟩ | ⟨c, c', hsome, -, hbound⟩
  · rw [hnone] at hb
    contradiction
  · rw [hsome] at hb
    cases hb
    exact hbound.2.closure? hf

/-- What belongs to something in a fitting heap is sound, where there are no pads. -/
theorem Fits.sound (hfits : Fits w h h') (howns : ∀ {a a'}, w.sees a a' → w.owns a a') :
    h.Sound fun a => ∃ a', w.owns a a' where
  present ha := by
    obtain ⟨a', ha⟩ := ha
    exact (hfits.owned_lt ha).1
  older ha ho := by
    obtain ⟨a', ha⟩ := ha
    exact (hfits.older ha).1 _ ho
  outer ha ho := by
    obtain ⟨a', ha⟩ := ha
    rcases rel_cases (hfits.outer ha) with ⟨hnone, -⟩ | ⟨o, o', hsome, -, hsees⟩
    · rw [hnone] at ho
      contradiction
    · rw [hsome] at ho
      cases ho
      exact ⟨o', howns hsees⟩
  numbered {a name b f} ha hb hf := by
    obtain ⟨a', ha⟩ := ha
    obtain ⟨i, scope, hsame, -⟩ := hfits.closure? ha hb hf
    exact (hfits.numbered hsame).1
  captured {a name b f} ha hb hf := by
    obtain ⟨a', ha⟩ := ha
    obtain ⟨i, scope, -, hsees⟩ := hfits.closure? ha hb hf
    exact ⟨scope, howns hsees⟩

end Heap

end ScriptLang
