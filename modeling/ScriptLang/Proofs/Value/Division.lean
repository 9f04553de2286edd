import ScriptLang.Value.Operator

/-!
  Division of integers.

  Rounding towards zero is said without a quotient of absolute values and without a test of signs: the
  remainder is smaller than the divisor and, unless it is zero, on the side of zero where the dividend is.
  There is one such pair for each dividend and each divisor other than zero.  Negating the dividend or the
  divisor of a pair gives a pair again: this brings the four combinations of signs back to natural numbers, and
  says what the operators do with a negated operand.
-/

namespace ScriptLang

/-- `q` and `r` are the quotient and the remainder of `a` by `b`, rounded towards zero. -/
structure IsTruncatingPair (a b q r : Int) : Prop where
  eq : a = b * q + r
  natAbs_lt : r.natAbs < b.natAbs
  sign : r = 0 ∨ r.sign = a.sign

namespace IsTruncatingPair

variable {a b q r q' r' : Int}

theorem ne_zero (h : IsTruncatingPair a b q r) : b ≠ 0 := by
  have hlt := h.natAbs_lt
  omega

theorem remainder_eq (h : IsTruncatingPair a b q r) : r = a - b * q := by
  have heq := h.eq
  omega

/-! ## Negated operands -/

theorem neg_left (h : IsTruncatingPair a b q r) : IsTruncatingPair (-a) b (-q) (-r) where
  eq := by rw [h.eq, Int.mul_neg, Int.neg_add]
  natAbs_lt := by
    rw [Int.natAbs_neg]
    exact h.natAbs_lt
  sign := by
    rcases h.sign with hzero | hsign
    · exact Or.inl (Int.neg_eq_zero.2 hzero)
    · exact Or.inr (by rw [Int.sign_neg, Int.sign_neg, hsign])

theorem neg_right (h : IsTruncatingPair a b q r) : IsTruncatingPair a (-b) (-q) r where
  eq := by rw [Int.neg_mul_neg]; exact h.eq
  natAbs_lt := by
    rw [Int.natAbs_neg]
    exact h.natAbs_lt
  sign := h.sign

/-! ## Uniqueness -/

theorem remainder_nonneg (h : IsTruncatingPair a b q r) (ha : 0 ≤ a) : 0 ≤ r := by
  rcases h.sign with hzero | hsign
  · exact Int.le_of_eq hzero.symm
  · rw [← Int.sign_nonneg_iff, hsign]
    exact Int.sign_nonneg_iff.2 ha

theorem remainder_nonpos (h : IsTruncatingPair a b q r) (ha : a ≤ 0) : r ≤ 0 := by
  have hneg : 0 ≤ -r := h.neg_left.remainder_nonneg (Int.neg_nonneg_of_nonpos ha)
  omega

/-- Two remainders are on the same side of zero, and so differ by less than the divisor. -/
theorem natAbs_sub_lt (h : IsTruncatingPair a b q r) (h' : IsTruncatingPair a b q' r') :
    (r - r').natAbs < b.natAbs := by
  have hlt := h.natAbs_lt
  have hlt' := h'.natAbs_lt
  rcases Int.le_total 0 a with ha | ha
  · have hr := h.remainder_nonneg ha
    have hr' := h'.remainder_nonneg ha
    omega
  · have hr := h.remainder_nonpos ha
    have hr' := h'.remainder_nonpos ha
    omega

theorem unique (h : IsTruncatingPair a b q r) (h' : IsTruncatingPair a b q' r') : q = q' ∧ r = r' := by
  have hsplit : b * q + r = b * q' + r' := h.eq.symm.trans h'.eq
  have hdvd : b ∣ r - r' := ⟨q' - q, by rw [Int.mul_sub]; omega⟩
  have hsub : r - r' = 0 := Int.eq_zero_of_dvd_of_natAbs_lt_natAbs hdvd (h.natAbs_sub_lt h')
  have hmul : b * q = b * q' := by omega
  exact ⟨Int.eq_of_mul_eq_mul_left h.ne_zero hmul, Int.sub_eq_zero.1 hsub⟩

/-! ## Existence -/

theorem ofNat (m : Nat) {n : Nat} (hn : 0 < n) : IsTruncatingPair m n ↑(m / n) ↑(m % n) where
  eq := by exact_mod_cast (Nat.div_add_mod m n).symm
  natAbs_lt := Nat.mod_lt m hn
  sign := by
    rcases Nat.eq_zero_or_pos (m % n) with hzero | hpos
    · exact Or.inl (Int.natCast_eq_zero.2 hzero)
    · have hm : 0 < m := Nat.lt_of_lt_of_le hpos (Nat.mod_le m n)
      rw [Int.sign_natCast_of_ne_zero (Nat.ne_of_gt hpos), Int.sign_natCast_of_ne_zero (Nat.ne_of_gt hm)]
      exact Or.inr rfl

/-- The quotient of the absolute values with its sign put back belongs to a pair. -/
theorem exists_remainder (a : Int) (hb : b ≠ 0) : ∃ r, IsTruncatingPair a b (truncatedQuotient a b) r := by
  have habs : IsTruncatingPair a.natAbs b.natAbs _ _ := ofNat a.natAbs (Int.natAbs_pos.2 hb)
  unfold truncatedQuotient
  -- each operand that is negative is the negation of its absolute value, and the pair follows it back
  rcases Int.lt_or_le a 0 with ha | ha
  · rw [Int.ofNat_natAbs_of_nonpos (Int.le_of_lt ha)] at habs
    have hdividend := habs.neg_left
    rw [Int.neg_neg] at hdividend
    rcases Int.lt_or_le b 0 with hb | hb
    · rw [Int.ofNat_natAbs_of_nonpos (Int.le_of_lt hb)] at hdividend
      have hdivisor := hdividend.neg_right
      rw [Int.neg_neg, Int.neg_neg] at hdivisor
      rw [if_pos (iff_of_true ha hb)]
      exact ⟨_, hdivisor⟩
    · rw [Int.natAbs_of_nonneg hb] at hdividend
      rw [if_neg fun h => Int.not_lt.2 hb (h.1 ha)]
      exact ⟨_, hdividend⟩
  · rw [Int.natAbs_of_nonneg ha] at habs
    rcases Int.lt_or_le b 0 with hb | hb
    · rw [Int.ofNat_natAbs_of_nonpos (Int.le_of_lt hb)] at habs
      have hdivisor := habs.neg_right
      rw [Int.neg_neg] at hdivisor
      rw [if_neg fun h => Int.not_lt.2 ha (h.2 hb)]
      exact ⟨_, hdivisor⟩
    · rw [Int.natAbs_of_nonneg hb] at habs
      rw [if_pos (iff_of_false (Int.not_lt.2 ha) (Int.not_lt.2 hb))]
      exact ⟨_, habs⟩

end IsTruncatingPair

/-! ## The pair that is computed -/

variable {a b q r : Int}

/-- The truncating pair is what is computed.  There is none for the divisor zero, and the computation fails
    there. -/
theorem truncatedDivMod_eq_ok_iff : truncatedDivMod a b = .ok (q, r) ↔ IsTruncatingPair a b q r := by
  unfold truncatedDivMod
  by_cases hb : b = 0
  · rw [if_pos hb]
    constructor
    · intro h
      cases h
    · intro h
      exact absurd hb h.ne_zero
  · obtain ⟨r', hpair⟩ := IsTruncatingPair.exists_remainder a hb
    rw [if_neg hb, ← hpair.remainder_eq]
    constructor
    · intro h
      cases h
      exact hpair
    · intro h
      obtain ⟨hq, hr⟩ := hpair.unique h
      rw [hq, hr]

/-! ## The operators -/

/-- The operators `/` and `%` take `a` and `b` to `q` and `r`. -/
def Value.QuotRem (a b q r : Value) : Prop := binaryOp "/" a b = .ok q ∧ binaryOp "%" a b = .ok r

theorem IsTruncatingPair.quotRem (h : IsTruncatingPair a b q r) :
    Value.QuotRem (.int a) (.int b) (.int q) (.int r) := by
  have hok : truncatedDivMod a b = .ok (q, r) := truncatedDivMod_eq_ok_iff.2 h
  constructor
  · show Except.ok (integerOp "/" a b) = _
    simp only [integerOp, hok]
  · show Except.ok (integerOp "%" a b) = _
    simp only [integerOp, hok]

/-- For a divisor other than zero, what is computed is the one truncating pair.  The operators yield it, and
    `(x / y) * y + x % y == x` holds.  Negating the dividend negates both results, and negating the divisor
    negates the quotient and keeps the remainder. -/
theorem division_truncates {x y : Int} (hy : y ≠ 0) : ∃ q r : Int,
    truncatedDivMod x y = .ok (q, r) ∧
    IsTruncatingPair x y q r ∧ (∀ q' r', IsTruncatingPair x y q' r' → q' = q ∧ r' = r) ∧
    Value.QuotRem (.int x) (.int y) (.int q) (.int r) ∧
    (do
      let product ← binaryOp "*" (← binaryOp "/" (.int x) (.int y)) (.int y)
      let sum ← binaryOp "+" product (← binaryOp "%" (.int x) (.int y))
      binaryOp "==" sum (.int x)) = .ok (.bool true) ∧
    Value.QuotRem (unaryOp "-" (.int x)) (.int y) (unaryOp "-" (.int q)) (unaryOp "-" (.int r)) ∧
    Value.QuotRem (.int x) (unaryOp "-" (.int y)) (unaryOp "-" (.int q)) (.int r) := by
  obtain ⟨r, hpair⟩ := IsTruncatingPair.exists_remainder x hy
  generalize truncatedQuotient x y = q at hpair
  have hoperators := hpair.quotRem
  refine ⟨q, r, truncatedDivMod_eq_ok_iff.2 hpair, hpair, fun _ _ h => h.unique hpair, hoperators, ?_,
    hpair.neg_left.quotRem, hpair.neg_right.quotRem⟩
  have hsum : q * y + r = x := by rw [Int.mul_comm, ← hpair.eq]
  rw [hoperators.1, hoperators.2]
  show Except.ok (Value.bool (q * y + r == x)) = _
  rw [hsum, beq_self_eq_true]

/-- A negative dividend that is no multiple of the divisor: `-7` by `2` gives `-3` and leaves `-1`, while the
    pair of the next lower quotient is not truncating. -/
theorem division_truncates_negative :
    (2 : Int) ≠ 0 ∧ truncatedDivMod (-7) 2 = .ok (-3, -1) ∧ ¬ IsTruncatingPair (-7) 2 (-4) 1 ∧
    Value.QuotRem (.int (-7)) (.int 2) (.int (-3)) (.int (-1)) ∧
    Value.QuotRem (.int 7) (.int 2) (.int 3) (.int 1) ∧
    Value.QuotRem (.int (-7)) (.int (-2)) (.int 3) (.int (-1)) := by
  have htwo : (2 : Int) ≠ 0 := by decide
  have hcomputed : truncatedDivMod (-7) 2 = .ok (-3, -1) := rfl
  obtain ⟨q, r, hok, -, hunique, hoperators, -, hleft, hright⟩ := division_truncates (x := -7) htwo
  cases hcomputed.symm.trans hok
  refine ⟨htwo, hcomputed, fun hlower => ?_, hoperators, hleft, hright⟩
  have hquotient : (-4 : Int) = -3 := (hunique (-4) 1 hlower).1
  omega

end ScriptLang
