import ScriptLang.Proofs.Tree.Features
import ScriptLang.Proofs.Value.Choice
import ScriptLang.Proofs.Value.Clean

/-!
  Floats come from floats.

  Operators make a float only if one of their operands is one, and a parameter only if it is declared
  so.  Where there is no float the conversions that can fail are never made, and a division by zero is
  answered before it is carried out.  Then the only fault left is an integer with too many digits to be
  shown.
-/

namespace ScriptLang

/-- The faults of programs with these features. -/
def Features.Faults (a : Features) (f : Fault) : Prop := a.floats = true ∨ f = .textDigits

def Closure.Within (a : Features) (f : Closure) : Prop :=
  (∀ p ∈ f.parameters, p.Within a) ∧ f.body.Within a

namespace Value

def isFloat : Value → Bool
  | .float _ => true
  | _ => false

/-- A value of a program with these features: a float only if there are floats, and no other function
    than one of such a program. -/
def Within (a : Features) : Value → Prop
  | .float _ => a.floats = true
  | .function f => f.Within a
  | .returned v => v.Within a
  | _ => True

/-- The value is a float only if there are floats. -/
def Allowed (a : Features) (v : Value) : Prop := v.isFloat = true → a.floats = true

variable {a : Features} {v w : Value}

theorem Within.allowed (h : v.Within a) : v.Allowed a := by
  intro hv
  cases v with
  | float x => exact h
  | int n | bool b | str s | null | function f | returned w | error e => cases hv

theorem Plain.within (h : v.Plain) (hv : v.Allowed a) : v.Within a := by
  cases v with
  | float x => exact hv rfl
  | function f | returned w => exact h.elim
  | int n | bool b | str s | null | error e => trivial

theorem Within.unwrap (h : v.Within a) : v.unwrap.Within a := by
  cases v with
  | returned w => exact h
  | float x | int n | bool b | str s | null | function f | error e => exact h

theorem within_all (v : Value) : v.Within .all := by
  induction v with
  | float x => rfl
  | function f => exact ⟨Parameter.within_all _, f.body.within_all⟩
  | returned w ih => exact ih
  | int n | bool b | str s | null | error e => trivial

end Value

/-! ## Showing values -/

section Shown

variable {v w : Value}

theorem Value.text_cases (v : Value) : (∃ s, v.text = .ok s) ∨ v.text = .error .textDigits := by
  induction v with
  | int n =>
    unfold text Number.integerText
    dsimp only
    split
    · exact Or.inl ⟨_, rfl⟩
    · exact Or.inr rfl
  | returned w ih => exact ih
  | float x | bool b | str s | null | function f | error e => exact Or.inl ⟨_, rfl⟩

theorem texts_cases (vs : List Value) : (∃ ss, Rule.texts vs = .ok ss) ∨ Rule.texts vs = .error .textDigits := by
  induction vs with
  | nil => exact Or.inl ⟨[], rfl⟩
  | cons v vs ih =>
    unfold Rule.texts
    rcases v.text_cases with ⟨s, hs⟩ | hs
    · rcases ih with ⟨ss, hss⟩ | hss
      · rw [hs, hss]
        exact Or.inl ⟨s :: ss, rfl⟩
      · rw [hs, hss]
        exact Or.inr rfl
    · rw [hs]
      exact Or.inr rfl

/-- What is made of the texts of two values. -/
theorem shown_cases {α : Type} (v w : Value) (make : String → String → α) :
    (∃ s s', (do return make (← v.text) (← w.text) : Except Fault α) = .ok (make s s')) ∨
      (do return make (← v.text) (← w.text) : Except Fault α) = .error .textDigits := by
  rcases v.text_cases with ⟨s, hs⟩ | hs
  · rcases w.text_cases with ⟨s', hs'⟩ | hs'
    · rw [hs, hs']
      exact Or.inl ⟨s, s', rfl⟩
    · rw [hs, hs']
      exact Or.inr rfl
  · rw [hs]
    exact Or.inr rfl

theorem Value.equal_cases (v w : Value) : (∃ r, v.equal w = .ok r) ∨ v.equal w = .error .textDigits := by
  have hshown := shown_cases v w fun s s' => s == s'
  unfold equal
  split
  case h_9 =>
    rcases hshown with ⟨s, s', h⟩ | h
    · exact Or.inl ⟨_, h⟩
    · exact Or.inr h
  all_goals exact Or.inl ⟨_, rfl⟩

end Shown

/-! ## Operators without floats -/

section Integers

variable {op : String} {a b v w : Value}

theorem unaryOp_isFloat (hv : v.isFloat = false) : (unaryOp op v).isFloat = false := by
  unfold unaryOp
  split
  · rfl
  · cases v with
    | float x => cases hv
    | int n | bool b | str s | null | function f | returned w | error e => rfl
  · rfl

theorem stepped_isFloat (hv : v.isFloat = false) (h : Rule.stepped op v = some w) : w.isFloat = false := by
  cases v with
  | int n =>
    cases h
    rfl
  | float x => cases hv
  | bool b | str s | null | function f | returned w | error e => cases h

theorem integerOp_isFloat (op : String) (x y : Int) : (integerOp op x y).isFloat = false := by
  unfold integerOp
  split
  · rfl
  · rfl
  · rfl
  · split <;> rfl
  · split <;> rfl
  · split <;> rfl

theorem operandError_isFloat (op : String) (a b : Value) : (operandError op a b).isFloat = false := by
  unfold operandError
  split <;> rfl

theorem toFloat?_of_not_isFloat {r : Except Fault Float} (hv : v.isFloat = false) (h : v.toFloat? = some r) :
    ∃ n, v = .int n := by
  cases v with
  | int n => exact ⟨n, rfl⟩
  | float x => cases hv
  | bool b | str s | null | function f | returned w | error e => cases h

/-- Arithmetic without floats converts nothing, so it always has an answer. -/
theorem arithmeticOp_isFloat (op : String) (ha : a.isFloat = false) (hb : b.isFloat = false) :
    ∃ w, arithmeticOp op a b = .ok w ∧ w.isFloat = false := by
  unfold arithmeticOp
  split
  · exact ⟨_, rfl, integerOp_isFloat _ _ _⟩
  · split
    · exact ⟨_, rfl, rfl⟩
    · exact ⟨_, rfl, operandError_isFloat _ _ _⟩
  · rename_i hint _
    split
    · rename_i x y hx hy
      -- two numbers that are no floats are two integers
      obtain ⟨m, rfl⟩ := toFloat?_of_not_isFloat ha hx
      obtain ⟨n, rfl⟩ := toFloat?_of_not_isFloat hb hy
      exact absurd rfl (hint m n rfl)
    · exact ⟨_, rfl, operandError_isFloat _ _ _⟩

theorem binaryOp_isFloat (op : String) (ha : a.isFloat = false) (hb : b.isFloat = false) :
    (∃ w, binaryOp op a b = .ok w ∧ w.isFloat = false) ∨ binaryOp op a b = .error .textDigits := by
  have hconcat : (∃ w, a.concat b = .ok w ∧ w.isFloat = false) ∨ a.concat b = .error .textDigits := by
    rcases shown_cases a b fun s s' => Value.str (s ++ s') with ⟨s, s', h⟩ | h
    · exact Or.inl ⟨_, h, rfl⟩
    · exact Or.inr h
  have hequal (g : Bool → Bool) :
      (∃ w, (do return Value.bool (g (← a.equal b))) = Except.ok w ∧ w.isFloat = false) ∨
        (do return Value.bool (g (← a.equal b))) = Except.error Fault.textDigits := by
    rcases a.equal_cases b with ⟨r, h⟩ | h
    · rw [h]
      exact Or.inl ⟨_, rfl, rfl⟩
    · rw [h]
      exact Or.inr rfl
  unfold binaryOp
  split
  · exact hconcat
  · exact hconcat
  · exact hequal id
  · exact hequal not
  · exact Or.inl (arithmeticOp_isFloat _ ha hb)

/-- A parameter that is not declared a float passes its argument on or refuses it. -/
theorem checkArgument_of_ne_float {declared : String} (h : declared ≠ "float") (function parameter : String)
    (v : Value) : ∃ w, checkArgument function parameter declared v = .ok w ∧ (w = v ∨ ∃ e, w = .error e) := by
  unfold checkArgument
  split
  · exact ⟨v, rfl, Or.inl rfl⟩
  · split
    · exact absurd rfl h
    · dsimp only
      split
      · exact ⟨v, rfl, Or.inl rfl⟩
      · exact ⟨_, rfl, Or.inr ⟨_, rfl⟩⟩

end Integers

/-! ## Values of programs with given features -/

section Within

variable {k : Features} {op : String} {a b v w : Value}

/-- Without floats in the language there are none among the operands. -/
theorem Value.Allowed.isFloat_eq_false (h : v.Allowed k) (hk : k.floats = false) : v.isFloat = false := by
  cases hv : v.isFloat with
  | false => rfl
  | true =>
    rw [h hv] at hk
    cases hk

/-- What is a float only if another value is one. -/
theorem Value.Allowed.of_isFloat (h : v.Allowed k) (hw : v.isFloat = false → w.isFloat = false) :
    w.Allowed k := by
  intro hfloat
  cases hv : v.isFloat with
  | true => exact h hv
  | false =>
    rw [hw hv] at hfloat
    cases hfloat

theorem Value.Allowed.unaryOp (h : v.Allowed k) : (unaryOp op v).Allowed k := h.of_isFloat unaryOp_isFloat

theorem Value.Allowed.stepped (h : v.Allowed k) (hstep : Rule.stepped op v = some w) : w.Allowed k :=
  h.of_isFloat fun hv => stepped_isFloat hv hstep

theorem Value.Allowed.binaryOp (ha : a.Allowed k) (hb : b.Allowed k) (op : String) :
    (∀ w, binaryOp op a b = .ok w → w.Allowed k) ∧ ∀ f, ScriptLang.binaryOp op a b = .error f → k.Faults f := by
  cases hk : k.floats with
  | true => exact ⟨fun w hw _ => hk, fun f _ => Or.inl hk⟩
  | false =>
    have ha' := ha.isFloat_eq_false hk
    have hb' := hb.isFloat_eq_false hk
    rcases binaryOp_isFloat op ha' hb' with ⟨u, heq, hu⟩ | heq
    · rw [heq]
      refine ⟨?_, nofun⟩
      rintro _ ⟨⟩ hfloat
      rw [hu] at hfloat
      cases hfloat
    · rw [heq]
      refine ⟨nofun, ?_⟩
      rintro _ ⟨⟩
      exact Or.inr rfl

theorem Parameter.Within.checkArgument {p : Parameter} (hp : p.Within k) (function : String) (v : Value) :
    (∀ w, checkArgument function p.name.text p.declared.name v = .ok w →
      w = v ∨ w.Plain ∧ w.Allowed k) ∧
    ∀ f, ScriptLang.checkArgument function p.name.text p.declared.name v = .error f → k.Faults f := by
  by_cases hdeclared : p.declared.name = "float"
  · have hk := hp hdeclared
    refine ⟨fun w hw => ?_, fun f _ => Or.inl hk⟩
    exact (checkArgument_cases hw).imp_right fun hplain => ⟨hplain, fun _ => hk⟩
  · obtain ⟨u, heq, hu⟩ := checkArgument_of_ne_float hdeclared function p.name.text v
    rw [heq]
    refine ⟨?_, nofun⟩
    rintro _ ⟨⟩
    rcases hu with rfl | ⟨e, rfl⟩
    · exact Or.inl rfl
    · exact Or.inr ⟨trivial, nofun⟩

end Within

end ScriptLang
