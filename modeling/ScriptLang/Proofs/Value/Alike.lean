import ScriptLang.Proofs.Value.Clean

/-!
  Values that differ in the numbers of scopes and functions only.

  Two heaps may hold the same scopes and functions under different numbers.  A `Matching` says which
  numbers belong together.  Two values are alike under it if they are equal, or are functions written
  alike whose numbers belong together.
-/

namespace ScriptLang

/-! ## Matchings -/

/-- Which scopes and which functions of two heaps belong together. -/
structure Matching where
  /-- The two scopes bind the same names. -/
  owns : ScopeId → ScopeId → Prop
  /-- The same names are seen from the two scopes. -/
  sees : ScopeId → ScopeId → Prop
  /-- The two numbers are those of one function. -/
  same : Nat → Nat → Prop
  owns_sees : ∀ {a a'}, owns a a' → sees a a'
  owns_iff : ∀ {a a' b b'}, owns a a' → owns b b' → (a = b ↔ a' = b')
  same_iff : ∀ {i i' j j'}, same i i' → same j j' → (i = j ↔ i' = j')

namespace Matching

/-- What belongs together under one matching does so under the other. -/
structure Within (w w' : Matching) : Prop where
  owns : ∀ {a a'}, w.owns a a' → w'.owns a a'
  sees : ∀ {a a'}, w.sees a a' → w'.sees a a'
  same : ∀ {i i'}, w.same i i' → w'.same i i'

instance : LE Matching := ⟨Within⟩

theorem le_refl (w : Matching) : w ≤ w := ⟨id, id, id⟩

theorem le_trans {w w' w'' : Matching} (h : w ≤ w') (h' : w' ≤ w'') : w ≤ w'' :=
  ⟨fun ho => h'.owns (h.owns ho), fun hs => h'.sees (h.sees hs), fun hs => h'.same (h.same hs)⟩

/-- Two values that differ at most in the numbers of a function and of its scope. -/
inductive Alike (w : Matching) : Value → Value → Prop
  | plain {v : Value} : v.closure? = none → w.Alike v v
  | function {f : Closure} {id : Nat} {scope : ScopeId} : w.same f.id id → w.sees f.scope scope →
      w.Alike (.function f) (.function { f with id := id, scope := scope })
  | returned {v v' : Value} : w.Alike v v' → w.Alike (.returned v) (.returned v')

namespace Alike

variable {w w' : Matching} {v v' : Value}

theorem later (h : w.Alike v v') (hw : w ≤ w') : w'.Alike v v' := by
  induction h with
  | plain hv => exact .plain hv
  | function hid hscope => exact .function (hw.same hid) (hw.sees hscope)
  | returned _ ih => exact .returned ih

/-- A value is alike itself if its function is. -/
theorem refl (h : ∀ f ∈ v.closure?, w.same f.id f.id ∧ w.sees f.scope f.scope) : w.Alike v v := by
  induction v with
  | function f =>
    obtain ⟨hid, hscope⟩ := h f rfl
    exact .function hid hscope
  | returned v ih => exact .returned (ih h)
  | int n | float x | bool b | str s | null | error e => exact .plain rfl

theorem error (e : RuntimeError) : w.Alike (.error e) (.error e) := .plain rfl

/-- A function in a value belongs to one in the other value. -/
theorem closure? {f : Closure} (h : w.Alike v v') (hf : v.closure? = some f) :
    ∃ i scope, w.same f.id i ∧ w.sees f.scope scope := by
  induction h with
  | plain hv =>
    rw [hv] at hf
    contradiction
  | function hid hscope =>
    cases hf
    exact ⟨_, _, hid, hscope⟩
  | returned _ ih => exact ih hf

/-! ## What values show -/

theorem text (h : w.Alike v v') : v.text = v'.text := by
  induction h with
  | plain _ => rfl
  | function _ _ => rfl
  | returned _ ih => exact ih

theorem isSignal (h : w.Alike v v') : v.isSignal = v'.isSignal := by cases h <;> rfl

theorem eq_of_error {e : RuntimeError} (h : w.Alike (.error e) v) : v = .error e := by
  cases h with
  | plain _ => rfl

end Alike

end Matching

end ScriptLang
