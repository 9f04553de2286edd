import Mathlib.Algebra.Group.Nat.Defs
import ScriptLang.Value.Operator

/-!
  Equality of scalars.

  Two values of one kind are compared by what they hold, and two of different kinds by how they are shown.
  On integers, booleans, strings and null this is one relation: scalars are equal exactly if they are shown
  alike.  Two scalars of one kind that are shown alike are the same, which for integers means that a number has
  one decimal text only.
-/

namespace ScriptLang

/-- The decimal text of an integer tells which one it is: the digits give the number back, and only the
    text of a negative one starts with a minus. -/
theorem Number.repr_inj {m n : Int} : m.repr = n.repr ↔ m = n := by
  have hread {a b : Nat} (h : a.repr = b.repr) : a = b := by
    have hdigits : Nat.toDigits 10 a = Nat.toDigits 10 b := by rw [← Nat.toList_repr, h, Nat.toList_repr]
    rw [← Nat.ofDigitChars_ten_toDigits (n := a), hdigits, Nat.ofDigitChars_ten_toDigits]
  have hsign {a b : Nat} : a.repr ≠ "-" ++ b.repr := by
    intro h
    have hminus : '-' ∈ Nat.toDigits 10 a := by
      rw [← Nat.toList_repr, h, String.toList_append]
      exact List.mem_cons_self
    exact absurd (Nat.isDigit_of_mem_toDigits (by decide) (by decide) hminus) (by decide)
  refine ⟨fun h => ?_, congrArg Int.repr⟩
  cases m with
  | ofNat a =>
    cases n with
    | ofNat b => exact congrArg Int.ofNat (hread h)
    | negSucc b => exact absurd h hsign
  | negSucc a =>
    cases n with
    | ofNat b => exact absurd h.symm hsign
    | negSucc b => exact congrArg Int.negSucc (Nat.succ.inj (hread ((String.append_right_inj "-").1 h)))

namespace Value

/-- Integers of at most `digitLimit` digits, booleans, strings and null. -/
def IsScalar : Value → Prop
  | int n => n.natAbs < 10 ^ digitLimit
  | bool _ | str _ | null => True
  | float _ | function _ | returned _ | error _ => False

theorem text_int {n : Int} (h : (int n).IsScalar) : (int n).text = .ok n.repr := by
  have hlength : n.natAbs.repr.length ≤ digitLimit := (Nat.length_repr_le_iff (by decide)).2 h
  show Number.integerText n = .ok n.repr
  unfold Number.integerText
  rw [if_pos hlength]
  cases n with
  | ofNat m => rfl
  | negSucc m =>
    rw [if_pos (Int.negSucc_lt_zero m)]
    rfl

/-- Every scalar can be shown. -/
theorem IsScalar.exists_text {v : Value} (h : v.IsScalar) : ∃ s, v.text = .ok s := by
  cases v with
  | int n => exact ⟨n.repr, text_int h⟩
  | bool b => exact ⟨_, rfl⟩
  | str s => exact ⟨s, rfl⟩
  | null => exact ⟨"null", rfl⟩
  | float x | function f | returned u | error e => exact h.elim

/-- Whether two values are shown alike. -/
def shownAlike (a b : Value) : Except Fault Bool := do return (← a.text) == (← b.text)

variable {a b : Value}

theorem equal_int {m n : Int} (hm : (int m).IsScalar) (hn : (int n).IsScalar) :
    (int m).equal (int n) = (int m).shownAlike (int n) := by
  have hsame : (m == n) = (m.repr == n.repr) := by
    rw [Bool.eq_iff_iff, beq_iff_eq, beq_iff_eq, Number.repr_inj]
  show Except.ok (m == n) = _
  unfold shownAlike
  rw [text_int hm, text_int hn, hsame]
  rfl

/-- Two scalars are compared by how they are shown, whether they are of one kind or not. -/
theorem IsScalar.equal_eq (ha : a.IsScalar) (hb : b.IsScalar) : a.equal b = a.shownAlike b := by
  cases a with
  | int m =>
    cases b with
    | int n => exact equal_int ha hb
    | bool _ | str _ | null => rfl
    | float _ | function _ | returned _ | error _ => exact hb.elim
  | bool x =>
    cases b with
    | bool y => cases x <;> cases y <;> rfl
    | int _ | str _ | null => rfl
    | float _ | function _ | returned _ | error _ => exact hb.elim
  | str _ =>
    cases b with
    | int _ | bool _ | str _ | null => rfl
    | float _ | function _ | returned _ | error _ => exact hb.elim
  | null =>
    cases b with
    | int _ | bool _ | str _ | null => rfl
    | float _ | function _ | returned _ | error _ => exact hb.elim
  | float _ | function _ | returned _ | error _ => exact ha.elim

theorem shownAlike_eq {s t : String} (hs : a.text = .ok s) (ht : b.text = .ok t) :
    a.shownAlike b = .ok (decide (s = t)) := by
  unfold shownAlike
  rw [hs, ht]
  rfl

theorem IsScalar.binaryOp_eq {s t : String} (ha : a.IsScalar) (hb : b.IsScalar) (hs : a.text = .ok s)
    (ht : b.text = .ok t) :
    binaryOp "==" a b = .ok (.bool (decide (s = t))) ∧ binaryOp "!=" a b = .ok (.bool (!decide (s = t))) := by
  have hequal : a.equal b = .ok (decide (s = t)) := (ha.equal_eq hb).trans (shownAlike_eq hs ht)
  constructor
  · show (do return Value.bool (← a.equal b)) = _
    rw [hequal]
    rfl
  · show (do return Value.bool !(← a.equal b)) = _
    rw [hequal]
    rfl

/-- The operator finds two scalars equal exactly if they are shown alike. -/
theorem IsScalar.binaryOp_eq_true_iff (ha : a.IsScalar) (hb : b.IsScalar) :
    binaryOp "==" a b = .ok (.bool true) ↔ a.text = b.text := by
  obtain ⟨s, hs⟩ := ha.exists_text
  obtain ⟨t, ht⟩ := hb.exists_text
  rw [(ha.binaryOp_eq hb hs ht).1, hs, ht]
  simp

/-- On integers of at most `digitLimit` digits, booleans, strings and null, `==` tells whether two values are
    shown alike, also where it compares what they hold, and `!=` tells the opposite.  So `==` is an
    equivalence. -/
theorem equality_shows_alike :
    (∀ a b : Value, a.IsScalar → b.IsScalar → a.equal b = a.shownAlike b ∧
      ∃ s t, a.text = .ok s ∧ b.text = .ok t ∧ binaryOp "==" a b = .ok (.bool (decide (s = t))) ∧
        binaryOp "!=" a b = .ok (.bool (!decide (s = t)))) ∧
    Equivalence fun a b : { v : Value // v.IsScalar } => binaryOp "==" a.1 b.1 = .ok (.bool true) := by
  constructor
  · intro a b ha hb
    obtain ⟨s, hs⟩ := ha.exists_text
    obtain ⟨t, ht⟩ := hb.exists_text
    exact ⟨ha.equal_eq hb, s, t, hs, ht, ha.binaryOp_eq hb hs ht⟩
  · have hiff (a b : { v : Value // v.IsScalar }) := a.2.binaryOp_eq_true_iff b.2
    simp only [hiff]
    exact ⟨fun a => rfl, fun h => h.symm, fun h h' => h.trans h'⟩

/-- A number is equal to the string of its decimal text, and zero is not equal to a string with a sign. -/
theorem equality_shows_alike_signed :
    (int (-5)).IsScalar ∧ (int 0).IsScalar ∧ binaryOp "==" (int (-5)) (str "-5") = .ok (.bool true) ∧
      binaryOp "==" (str "-5") (int (-5)) = .ok (.bool true) ∧
      binaryOp "!=" (int 0) (str "-0") = .ok (.bool true) := by
  have hfive : (int (-5)).IsScalar := (Nat.length_repr_le_iff (by decide)).1 (by decide +kernel)
  have hzero : (int 0).IsScalar := (Nat.length_repr_le_iff (by decide)).1 (by decide +kernel)
  obtain ⟨hshown, hequivalence⟩ := equality_shows_alike
  obtain ⟨-, s, t, hs, ht, heq, -⟩ := hshown (int (-5)) (str "-5") hfive trivial
  obtain ⟨-, s', t', hs', ht', -, hne⟩ := hshown (int 0) (str "-0") hzero trivial
  cases (text_int hfive).symm.trans hs
  cases (text_int hzero).symm.trans hs'
  cases ht
  cases ht'
  have hsame : decide (Int.repr (-5) = "-5") = true := by decide +kernel
  have hother : (!decide (Int.repr 0 = "-0")) = true := by decide +kernel
  rw [hsame] at heq
  rw [hother] at hne
  refine ⟨hfive, hzero, heq, ?_, hne⟩
  exact hequivalence.symm (x := ⟨int (-5), hfive⟩) (y := ⟨str "-5", trivial⟩) heq

end Value

end ScriptLang
