import ScriptLang.Value.Argument
import ScriptLang.Value.Operator

/-!
  How operators and parameters choose.

  `+` joins texts if one operand is a string, `==` and `!=` compare any two values, and what is left is
  arithmetic.  A parameter takes an argument as it is, refuses it, or converts an integer to a float; only
  the last makes a new value.
-/

namespace ScriptLang

/-! ## Operators -/

/-- Whether a value is a string. -/
def Value.isText : Value → Bool
  | .str _ => true
  | _ => false

theorem binaryOp_plus (a b : Value) :
    binaryOp "+" a b = if a.isText || b.isText then a.concat b else arithmeticOp "+" a b := by
  cases a <;> cases b <;> rfl

theorem binaryOp_of_ne {op : String} (hplus : op ≠ "+") (heq : op ≠ "==") (hne : op ≠ "!=")
    (a b : Value) : binaryOp op a b = arithmeticOp op a b := by
  unfold binaryOp
  split
  · contradiction
  · contradiction
  · contradiction
  · contradiction
  · rfl

/-! ## Parameters -/

/-- The type takes the value as it is. -/
def Value.Suits (v : Value) (declared : String) : Prop :=
  declared = "any" ∨ declared = "object" ∨ v.typeAgainst declared = declared

/-- The value is an integer where a float is declared. -/
def Value.Converts (v : Value) (declared : String) : Prop := declared = "float" ∧ ∃ n, v = .int n

/-- An argument that is not to be converted is taken as it is or refused. -/
theorem checkArgument_of_not_converts {v : Value} {declared : String} (hv : ¬ v.Converts declared)
    (function parameter : String) :
    (v.Suits declared → checkArgument function parameter declared v = .ok v) ∧
    (¬ v.Suits declared → checkArgument function parameter declared v =
      .ok (.error (.argumentType function parameter declared (v.typeAgainst declared)))) := by
  unfold checkArgument
  by_cases hany : declared = "any" ∨ declared = "object"
  · rw [if_pos hany]
    exact ⟨fun _ => rfl, fun hsuits => absurd (hany.imp_right Or.inl) hsuits⟩
  rw [if_neg hany]
  split
  · rename_i n
    exact absurd ⟨rfl, n, rfl⟩ hv
  by_cases hgiven : v.typeAgainst declared = declared
  · exact ⟨fun _ => if_pos hgiven, fun hsuits => absurd (Or.inr (Or.inr hgiven)) hsuits⟩
  · refine ⟨fun hsuits => ?_, fun _ => if_neg hgiven⟩
    rcases hsuits with h | h | h
    · exact absurd (Or.inl h) hany
    · exact absurd (Or.inr h) hany
    · exact absurd h hgiven

theorem checkArgument_of_ne_int {v : Value} (hv : ∀ n, v ≠ .int n)
    (function parameter declared : String) :
    (v.Suits declared → checkArgument function parameter declared v = .ok v) ∧
    (¬ v.Suits declared → checkArgument function parameter declared v =
      .ok (.error (.argumentType function parameter declared (v.typeAgainst declared)))) :=
  checkArgument_of_not_converts (fun ⟨_, n, hn⟩ => hv n hn) function parameter

end ScriptLang
