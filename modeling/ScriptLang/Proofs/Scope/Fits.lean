import ScriptLang.Proofs.Scope.Growth
import ScriptLang.Proofs.Value.Alike

/-!
  Heaps that fit.

  Under a matching two heaps fit if scopes that belong together bind the same names to values that are
  alike, and lie inside scopes that see the same.  A scope of the second heap that binds nothing may
  stand between: seen from inside, such a pad is as good as the scope around it.  So every name means
  the same in both heaps, and each operation that is done in both keeps them fitting.
-/

namespace ScriptLang

/-! ## Larger matchings -/

namespace Matching

/-- Two new scopes belong together. -/
def withScope (w : Matching) (n n' : ScopeId) (hnew : ∀ {a a'}, w.owns a a' → a ≠ n ∧ a' ≠ n') : Matching where
  owns a a' := w.owns a a' ∨ a = n ∧ a' = n'
  sees a a' := w.sees a a' ∨ a = n ∧ a' = n'
  same := w.same
  owns_sees := Or.imp_left w.owns_sees
  owns_iff := by
    rintro a a' b b' (ha | ⟨rfl, rfl⟩) (hb | ⟨rfl, rfl⟩)
    · exact w.owns_iff ha hb
    · exact ⟨fun h => absurd h (hnew ha).1, fun h => absurd h (hnew ha).2⟩
    · exact ⟨fun h => absurd h.symm (hnew hb).1, fun h => absurd h.symm (hnew hb).2⟩
    · exact ⟨fun _ => rfl, fun _ => rfl⟩
  same_iff := w.same_iff

theorem le_withScope (w : Matching) {n n' : ScopeId} (hnew : ∀ {a a'}, w.owns a a' → a ≠ n ∧ a' ≠ n') :
    w ≤ w.withScope n n' hnew :=
  ⟨Or.inl, Or.inl, id⟩

/-- Two new functions are one. -/
def withFunction (w : Matching) (n n' : Nat) (hnew : ∀ {i i'}, w.same i i' → i ≠ n ∧ i' ≠ n') : Matching where
  owns := w.owns
  sees := w.sees
  same i i' := w.same i i' ∨ i = n ∧ i' = n'
  owns_sees := w.owns_sees
  owns_iff := w.owns_iff
  same_iff := by
    rintro i i' j j' (hi | ⟨rfl, rfl⟩) (hj | ⟨rfl, rfl⟩)
    · exact w.same_iff hi hj
    · exact ⟨fun h => absurd h (hnew hi).1, fun h => absurd h (hnew hi).2⟩
    · exact ⟨fun h => absurd h.symm (hnew hj).1, fun h => absurd h.symm (hnew hj).2⟩
    · exact ⟨fun _ => rfl, fun _ => rfl⟩

theorem le_withFunction (w : Matching) {n n' : Nat} (hnew : ∀ {i i'}, w.same i i' → i ≠ n ∧ i' ≠ n') :
    w ≤ w.withFunction n n' hnew :=
  ⟨id, id, Or.inl⟩

/-- A new scope of the second heap sees what a scope of the first sees. -/
def withPad (w : Matching) (a n' : ScopeId) : Matching where
  owns := w.owns
  sees b b' := w.sees b b' ∨ b = a ∧ b' = n'
  same := w.same
  owns_sees h := Or.inl (w.owns_sees h)
  owns_iff := w.owns_iff
  same_iff := w.same_iff

theorem le_withPad (w : Matching) (a n' : ScopeId) : w ≤ w.withPad a n' := ⟨id, Or.inl, id⟩

/-- Bindings with values that are alike, both constant or both not. -/
def Bound (w : Matching) (b b' : Binding) : Prop := b.constant = b'.constant ∧ w.Alike b.value b'.value

theorem Bound.later {w w' : Matching} {b b' : Binding} (h : w.Bound b b') (hw : w ≤ w') : w'.Bound b b' :=
  ⟨h.1, h.2.later hw⟩

end Matching

namespace Heap

variable {w w' : Matching} {h h' : Heap} {a a' : ScopeId} {v v' : Value} {name : String}

/-- A scope of the second heap that binds nothing and lies inside one that sees what `a` sees. -/
structure Pads (w : Matching) (h' : Heap) (a a' : ScopeId) : Prop where
  unowned : ∀ c, ¬ w.owns c a'
  unbound : ∀ name, h'.binding? a' name = none
  outer : ∃ o', h'.outer? a' = some o' ∧ o' < a' ∧ w.sees a o'

/-- Two heaps that fit under a matching. -/
structure Fits (w : Matching) (h h' : Heap) : Prop where
  seen : ∀ {a a'}, w.sees a a' → a < h.scopes.size ∧ a' < h'.scopes.size
  numbered : ∀ {i i'}, w.same i i' → i < h.functions ∧ i' < h'.functions
  outer : ∀ {a a'}, w.owns a a' → Option.Rel w.sees (h.outer? a) (h'.outer? a')
  older : ∀ {a a'}, w.owns a a' → (∀ o ∈ h.outer? a, o < a) ∧ ∀ o' ∈ h'.outer? a', o' < a'
  bindings : ∀ {a a'}, w.owns a a' → ∀ name, Option.Rel w.Bound (h.binding? a name) (h'.binding? a' name)
  padded : ∀ {a a'}, w.sees a a' → w.owns a a' ∨ Pads w h' a a'

/-- A heap with new scopes and functions; the old scopes are as they were. -/
structure Extends (h h₁ : Heap) : Prop where
  size_le : h.scopes.size ≤ h₁.scopes.size
  functions_le : h.functions ≤ h₁.functions
  outer : ∀ i, i < h.scopes.size → h₁.outer? i = h.outer? i
  bindings : ∀ i name, h₁.binding? i name = h.binding? i name

theorem Extends.refl (h : Heap) : h.Extends h := ⟨Nat.le_refl _, Nat.le_refl _, fun _ _ => rfl, fun _ _ => rfl⟩

theorem Extends.alloc (h : Heap) (outer : Option ScopeId) : h.Extends (h.alloc outer).2 where
  size_le := by
    rw [size_alloc]
    exact Nat.le_succ _
  functions_le := Nat.le_refl _
  outer i hi := by rw [outer?_alloc, if_neg (Nat.ne_of_lt hi)]
  bindings i name := binding?_alloc outer i name

theorem Extends.allocFunction (h : Heap) : h.Extends h.allocFunction.2 :=
  ⟨Nat.le_refl _, Nat.le_succ _, fun _ _ => rfl, fun _ _ => rfl⟩

theorem binding?_alloc_new (h : Heap) {outer : Option ScopeId} (name : String) :
    (h.alloc outer).2.binding? h.scopes.size name = none := by
  rw [binding?_alloc]
  unfold binding?
  rw [Array.getElem?_eq_none (Nat.le_refl _)]
  rfl

/-! ## Looking up -/

/-- The nearest binding of a name within a number of scopes outwards. -/
def resolveUpTo (h : Heap) (fuel : Nat) (id : ScopeId) (name : String) : Option (ScopeId × Binding) :=
  (h.chainUpTo fuel id).findSome? fun s => (h.binding? s name).map (s, ·)

theorem resolveUpTo_succ (s : Scope) (fuel : Nat) (hs : h.scopes[a]? = some s) :
    h.resolveUpTo (fuel + 1) a name =
      ((h.binding? a name).map (a, ·)).or (s.outer.bind fun o => h.resolveUpTo fuel o name) := by
  unfold resolveUpTo
  rw [chainUpTo, hs]
  dsimp only
  cases s.outer with
  | none =>
    dsimp only
    rw [List.findSome?_cons]
    cases h.binding? a name <;> rfl
  | some o =>
    dsimp only
    rw [List.findSome?_cons]
    cases h.binding? a name <;> rfl

theorem resolveUpTo_bound {b : Binding} {fuel : Nat} (hb : h.binding? a name = some b) :
    h.resolveUpTo (fuel + 1) a name = some (a, b) := by
  obtain ⟨s, hs, -⟩ := binding?_eq_some.1 hb
  rw [resolveUpTo_succ s fuel hs, hb]
  rfl

theorem resolveUpTo_unbound {fuel : Nat} (hb : h.binding? a name = none) :
    h.resolveUpTo (fuel + 1) a name = (h.outer? a).bind fun o => h.resolveUpTo fuel o name := by
  unfold outer?
  cases hs : h.scopes[a]? with
  | none =>
    unfold resolveUpTo
    rw [chainUpTo, hs]
    rfl
  | some s =>
    rw [resolveUpTo_succ s fuel hs, hb]
    rfl

/-- Two results that belong together are both there or both not. -/
theorem rel_cases {α : Type} {R : α → α → Prop} {o o' : Option α} (hrel : Option.Rel R o o') :
    (o = none ∧ o' = none) ∨ ∃ b b', o = some b ∧ o' = some b' ∧ R b b' := by
  cases hrel with
  | none => exact Or.inl ⟨rfl, rfl⟩
  | some hR => exact Or.inr ⟨_, _, rfl, rfl, hR⟩

theorem rel_mono {α : Type} {R R' : α → α → Prop} {o o' : Option α} (hrel : Option.Rel R o o')
    (hR : ∀ b b', R b b' → R' b b') : Option.Rel R' o o' := by
  cases hrel with
  | none => exact .none
  | some h => exact .some (hR _ _ h)

/-- Places where a name is bound that belong together. -/
def Found (w : Matching) (r r' : ScopeId × Binding) : Prop := w.owns r.1 r'.1 ∧ w.Bound r.2 r'.2

namespace Fits

/-- The induction is on the length of the second chain, in which the pads stand. -/
theorem resolveUpTo (hfits : Fits w h h') (hsees : w.sees a a') (name : String) {n n' : Nat} (hn : a < n)
    (hn' : a' < n') : Option.Rel (Found w) (h.resolveUpTo n a name) (h'.resolveUpTo n' a' name) := by
  induction n' generalizing a a' n with
  | zero => exact absurd hn' (Nat.not_lt_zero _)
  | succ n' ih =>
    rcases hfits.padded hsees with howns | hpad
    · obtain ⟨n, rfl⟩ : ∃ k, n = k + 1 := Nat.exists_eq_add_one.2 (Nat.zero_lt_of_lt hn)
      rcases rel_cases (hfits.bindings howns name) with ⟨hb, hb'⟩ | ⟨b, b', hb, hb', hbound⟩
      · rw [resolveUpTo_unbound hb, resolveUpTo_unbound hb']
        obtain ⟨holder, holder'⟩ := hfits.older howns
        rcases rel_cases (hfits.outer howns) with ⟨ho, ho'⟩ | ⟨o, o', ho, ho', hsees'⟩
        · rw [ho, ho']
          exact .none
        · rw [ho, ho']
          have hlt : o < n := Nat.lt_of_lt_of_le (holder o ho) (Nat.le_of_lt_succ hn)
          have hlt' : o' < n' := Nat.lt_of_lt_of_le (holder' o' ho') (Nat.le_of_lt_succ hn')
          exact ih hsees' hlt hlt'
      · rw [resolveUpTo_bound hb, resolveUpTo_bound hb']
        exact .some ⟨howns, hbound⟩
    · -- a pad binds nothing: only the second search goes one scope outwards
      obtain ⟨o', ho', hlt, hsees'⟩ := hpad.outer
      rw [resolveUpTo_unbound (hpad.unbound name), ho']
      exact ih hsees' hn (Nat.lt_of_lt_of_le hlt (Nat.le_of_lt_succ hn'))

theorem resolve? (hfits : Fits w h h') (hsees : w.sees a a') (name : String) :
    Option.Rel (Found w) (h.resolve? a name) (h'.resolve? a' name) :=
  hfits.resolveUpTo hsees name (hfits.seen hsees).1 (hfits.seen hsees).2

/-- A name means the same in both heaps. -/
theorem get? (hfits : Fits w h h') (hsees : w.sees a a') (name : String) :
    Option.Rel w.Alike (h.get? a name) (h'.get? a' name) := by
  unfold Heap.get?
  rcases rel_cases (hfits.resolve? hsees name) with ⟨hr, hr'⟩ | ⟨r, r', hr, hr', -, hbound⟩
  · rw [hr, hr']
    exact .none
  · rw [hr, hr']
    exact .some hbound.2

/-! ## Operations on both heaps -/

theorem owned_lt (hfits : Fits w h h') (howns : w.owns a a') : a < h.scopes.size ∧ a' < h'.scopes.size :=
  hfits.seen (w.owns_sees howns)

theorem owned_ne (hfits : Fits w h h') {a a' : ScopeId} (howns : w.owns a a') :
    a ≠ h.scopes.size ∧ a' ≠ h'.scopes.size := by
  obtain ⟨hlt, hlt'⟩ := hfits.owned_lt howns
  exact ⟨Nat.ne_of_lt hlt, Nat.ne_of_lt hlt'⟩

theorem same_ne (hfits : Fits w h h') {i i' : Nat} (hsame : w.same i i') :
    i ≠ h.functions ∧ i' ≠ h'.functions := by
  obtain ⟨hlt, hlt'⟩ := hfits.numbered hsame
  exact ⟨Nat.ne_of_lt hlt, Nat.ne_of_lt hlt'⟩

/-- A change of bindings that both heaps make in scopes that belong together. -/
theorem rebind {h₁ h₁' : Heap} (hfits : Fits w h h') (hsize : h₁.scopes.size = h.scopes.size)
    (hsize' : h₁'.scopes.size = h'.scopes.size) (hfunctions : h₁.functions = h.functions)
    (hfunctions' : h₁'.functions = h'.functions) (houter : ∀ i, h₁.outer? i = h.outer? i)
    (houter' : ∀ i, h₁'.outer? i = h'.outer? i) (howns : w.owns a a')
    (hbindings : ∀ name, Option.Rel w.Bound (h₁.binding? a name) (h₁'.binding? a' name))
    (hother : ∀ i, i ≠ a → ∀ name, h₁.binding? i name = h.binding? i name)
    (hother' : ∀ i, i ≠ a' → ∀ name, h₁'.binding? i name = h'.binding? i name) : Fits w h₁ h₁' where
  seen hsees := by
    rw [hsize, hsize']
    exact hfits.seen hsees
  numbered hsame := by
    rw [hfunctions, hfunctions']
    exact hfits.numbered hsame
  outer {c c'} hc := by
    rw [houter, houter']
    exact hfits.outer hc
  older {c c'} hc := by
    rw [houter, houter']
    exact hfits.older hc
  bindings {c c'} hc name := by
    -- the scope that is written to is the same on both sides
    by_cases hca : c = a
    · have hca' : c' = a' := (w.owns_iff hc howns).1 hca
      subst hca hca'
      exact hbindings name
    · have hca' : c' ≠ a' := fun h => hca ((w.owns_iff hc howns).2 h)
      rw [hother c hca, hother' c' hca']
      exact hfits.bindings hc name
  padded {c c'} hsees := by
    refine (hfits.padded hsees).imp_right fun hpad => ⟨hpad.unowned, fun name => ?_, ?_⟩
    · -- nothing is ever written to a pad, since nothing owns it
      have hne : c' ≠ a' := fun h => hpad.unowned a (h ▸ howns)
      rw [hother' c' hne]
      exact hpad.unbound name
    · rw [houter']
      exact hpad.outer

/-- A name is declared in both heaps, or refused in both. -/
theorem define (hfits : Fits w h h') (howns : w.owns a a') (hv : w.Alike v v') (name : String)
    (constant : Bool) :
    Fits w (h.define a name v constant).2 (h'.define a' name v' constant).2 ∧
      w.Alike (h.define a name v constant).1 (h'.define a' name v' constant).1 := by
  obtain ⟨hlt, hlt'⟩ := hfits.owned_lt howns
  have hrel := rel_cases (hfits.bindings howns name)
  rcases define_cases h a name v constant with ⟨hsome, heq⟩ | ⟨hnew, hvalue, -⟩
  · rcases define_cases h' a' name v' constant with ⟨-, heq'⟩ | ⟨hnew', -⟩
    · rw [heq, heq']
      exact ⟨hfits, .error _⟩
    · rcases hrel with ⟨hb, -⟩ | ⟨b, b', -, hb', -⟩
      · rw [hb] at hsome
        contradiction
      · rw [hb'] at hnew'
        contradiction
  rcases define_cases h' a' name v' constant with ⟨hsome', -⟩ | ⟨hnew', hvalue', -⟩
  · rcases hrel with ⟨-, hb'⟩ | ⟨b, b', hb, -, -⟩
    · rw [hb'] at hsome'
      contradiction
    · rw [hb] at hnew
      contradiction
  rw [hvalue, hvalue']
  refine ⟨?_, hv⟩
  have hbinding (i : ScopeId) (n : String) : (h.define a name v constant).2.binding? i n = _ :=
    binding?_define_new hlt hnew i n
  have hbinding' (i : ScopeId) (n : String) : (h'.define a' name v' constant).2.binding? i n = _ :=
    binding?_define_new hlt' hnew' i n
  refine hfits.rebind (size_define _) (size_define _) (functions_define _) (functions_define _)
    (outer?_define _) (outer?_define _) howns (fun n => ?_) (fun i hi n => ?_) fun i hi n => ?_
  · rw [hbinding, hbinding']
    by_cases hn : n = name
    · rw [if_pos ⟨rfl, hn⟩, if_pos ⟨rfl, hn⟩]
      exact .some ⟨rfl, hv⟩
    · rw [if_neg fun h => hn h.2, if_neg fun h => hn h.2]
      exact hfits.bindings howns n
  · rw [hbinding, if_neg fun h => hi h.1]
  · rw [hbinding', if_neg fun h => hi h.1]

/-- A name is assigned to in both heaps, in scopes that belong together, or refused in both. -/
theorem assign (hfits : Fits w h h') (hsees : w.sees a a') (hv : w.Alike v v') (name : String) :
    Fits w (h.assign a name v).2 (h'.assign a' name v').2 ∧
      w.Alike (h.assign a name v).1 (h'.assign a' name v').1 := by
  rcases rel_cases (hfits.resolve? hsees name) with ⟨hr, hr'⟩ | ⟨⟨owner, b⟩, ⟨owner', b'⟩, hr, hr', howns, hbound⟩
  · rw [assign_unknown hr, assign_unknown hr']
    exact ⟨hfits, .error _⟩
  have hconstant : b.constant = b'.constant := hbound.1
  cases hb : b.constant with
  | true =>
    rw [assign_constant hr hb, assign_constant hr' (hconstant ▸ hb)]
    exact ⟨hfits, .error _⟩
  | false =>
    have hb' : b'.constant = false := hconstant ▸ hb
    obtain ⟨hvalue, hbinding⟩ := assign_variable (v := v) hr hb
    obtain ⟨hvalue', hbinding'⟩ := assign_variable (v := v') hr' hb'
    rw [hvalue, hvalue']
    refine ⟨?_, hv⟩
    refine hfits.rebind size_assign size_assign functions_assign functions_assign outer?_assign
      outer?_assign howns (fun n => ?_) (fun i hi n => ?_) fun i hi n => ?_
    · rw [hbinding, hbinding']
      by_cases hn : n = name
      · rw [if_pos ⟨rfl, hn⟩, if_pos ⟨rfl, hn⟩]
        exact .some ⟨hconstant, hv⟩
      · rw [if_neg fun h => hn h.2, if_neg fun h => hn h.2]
        exact hfits.bindings howns n
    · rw [hbinding, if_neg fun h => hi h.1]
    · rw [hbinding', if_neg fun h => hi h.1]

/-- New scopes and functions in one heap or in both. -/
theorem extend {h₁ h₁' : Heap} (hfits : Fits w h h') (hw : w ≤ w') (hext : h.Extends h₁)
    (hext' : h'.Extends h₁')
    (hsame : ∀ i i', w'.same i i' → w.same i i' ∨ i < h₁.functions ∧ i' < h₁'.functions)
    (hsees : ∀ c c', w'.sees c c' → w.sees c c' ∨
      c < h₁.scopes.size ∧ c' < h₁'.scopes.size ∧ (w'.owns c c' ∨ Pads w' h₁' c c'))
    (howns : ∀ c c', w'.owns c c' → w.owns c c' ∨ h'.scopes.size ≤ c' ∧
      Option.Rel w'.sees (h₁.outer? c) (h₁'.outer? c') ∧
      ((∀ o ∈ h₁.outer? c, o < c) ∧ ∀ o' ∈ h₁'.outer? c', o' < c') ∧
      ∀ name, h₁.binding? c name = none ∧ h₁'.binding? c' name = none) : Fits w' h₁ h₁' where
  seen {c c'} hc := by
    rcases hsees c c' hc with hc | ⟨hlt, hlt', -⟩
    · obtain ⟨hlt, hlt'⟩ := hfits.seen hc
      exact ⟨Nat.lt_of_lt_of_le hlt hext.size_le, Nat.lt_of_lt_of_le hlt' hext'.size_le⟩
    · exact ⟨hlt, hlt'⟩
  numbered {i i'} hi := by
    rcases hsame i i' hi with hi | hlt
    · obtain ⟨hlt, hlt'⟩ := hfits.numbered hi
      exact ⟨Nat.lt_of_lt_of_le hlt hext.functions_le, Nat.lt_of_lt_of_le hlt' hext'.functions_le⟩
    · exact hlt
  outer {c c'} hc := by
    rcases howns c c' hc with hc | ⟨-, houter, -⟩
    · obtain ⟨hlt, hlt'⟩ := hfits.owned_lt hc
      rw [hext.outer c hlt, hext'.outer c' hlt']
      exact rel_mono (hfits.outer hc) fun _ _ => hw.sees
    · exact houter
  older {c c'} hc := by
    rcases howns c c' hc with hc | ⟨-, -, holder, -⟩
    · obtain ⟨hlt, hlt'⟩ := hfits.owned_lt hc
      rw [hext.outer c hlt, hext'.outer c' hlt']
      exact hfits.older hc
    · exact holder
  bindings {c c'} hc name := by
    rcases howns c c' hc with hc | ⟨-, -, -, hunbound⟩
    · rw [hext.bindings, hext'.bindings]
      exact rel_mono (hfits.bindings hc name) fun _ _ hb => hb.later hw
    · rw [(hunbound name).1, (hunbound name).2]
      exact .none
  padded {c c'} hc := by
    rcases hsees c c' hc with hc | ⟨-, -, hnew⟩
    · refine (hfits.padded hc).imp hw.owns fun hpad => ⟨fun d hd => ?_, fun name => ?_, ?_⟩
      · rcases howns d c' hd with hd | ⟨hle, -⟩
        · exact hpad.unowned d hd
        · exact Nat.not_lt_of_le hle (hfits.seen hc).2
      · rw [hext'.bindings]
        exact hpad.unbound name
      · rw [hext'.outer c' (hfits.seen hc).2]
        obtain ⟨o', ho', hlt, hsees'⟩ := hpad.outer
        exact ⟨o', ho', hlt, hw.sees hsees'⟩
    · exact hnew

/-- Each heap gets a scope, inside scopes that see the same. -/
theorem alloc (hfits : Fits w h h') (hsees : w.sees a a') :
    Fits (w.withScope h.scopes.size h'.scopes.size hfits.owned_ne) (h.alloc (some a)).2 (h'.alloc (some a')).2 := by
  obtain ⟨hlt, hlt'⟩ := hfits.seen hsees
  refine hfits.extend (w.le_withScope _) (.alloc h _) (.alloc h' _) (fun _ _ => Or.inl) ?_ ?_
  · rintro c c' (hc | ⟨rfl, rfl⟩)
    · exact Or.inl hc
    · rw [size_alloc, size_alloc]
      exact Or.inr ⟨Nat.lt_succ_self _, Nat.lt_succ_self _, Or.inl (Or.inr ⟨rfl, rfl⟩)⟩
  · rintro c c' (hc | ⟨rfl, rfl⟩)
    · exact Or.inl hc
    · rw [outer?_alloc, outer?_alloc, if_pos rfl, if_pos rfl]
      refine Or.inr ⟨Nat.le_refl _, .some (Or.inl hsees), ⟨?_, ?_⟩, fun name => ⟨?_, ?_⟩⟩
      · rintro o ⟨⟩
        exact hlt
      · rintro o' ⟨⟩
        exact hlt'
      · exact binding?_alloc_new h name
      · exact binding?_alloc_new h' name

theorem allocFunction (hfits : Fits w h h') :
    Fits (w.withFunction h.functions h'.functions hfits.same_ne) h.allocFunction.2 h'.allocFunction.2 := by
  refine hfits.extend (w.le_withFunction _) (.allocFunction h) (.allocFunction h') ?_ (fun _ _ => Or.inl)
    fun _ _ => Or.inl
  rintro i i' (hi | ⟨rfl, rfl⟩)
  · exact Or.inl hi
  · exact Or.inr ⟨Nat.lt_succ_self _, Nat.lt_succ_self _⟩

/-- Only the second heap gets a scope, which sees what the scope around it sees. -/
theorem pad (hfits : Fits w h h') (hsees : w.sees a a') :
    Fits (w.withPad a h'.scopes.size) h (h'.alloc (some a')).2 := by
  obtain ⟨hlt, hlt'⟩ := hfits.seen hsees
  refine hfits.extend (w.le_withPad _ _) (.refl h) (.alloc h' _) (fun _ _ => Or.inl) ?_ fun _ _ => Or.inl
  rintro c c' (hc | ⟨rfl, rfl⟩)
  · exact Or.inl hc
  · rw [size_alloc]
    refine Or.inr ⟨hlt, Nat.lt_succ_self _, Or.inr ⟨fun d hd => ?_, fun name => ?_, a', ?_, hlt', Or.inl hsees⟩⟩
    · exact (hfits.owned_ne hd).2 rfl
    · exact binding?_alloc_new h' name
    · rw [outer?_alloc, if_pos rfl]

end Fits

end Heap

end ScriptLang
