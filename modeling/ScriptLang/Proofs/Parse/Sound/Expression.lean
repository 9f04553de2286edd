import ScriptLang.Proofs.Parse.Sound.Declared

/-!
  What is read was spelled: expressions.

  The loop that extends an expression to the right knows strengths only, the grammar knows tiers only.
  `Grown` ties them together: it is what holds of the expression read so far, whatever operator comes
  next.  The crux is that an operator that binds tighter than an expression has grown cannot follow
  it, because the routine that read the end of the expression would have taken it.
-/

namespace ScriptLang.Parse

/-- The tier of what is read at a strength: it holds no operator that the caller has to take. -/
def tierAbove (strength : Nat) : Nat := max Strength.logical (min (strength + 1) Strength.before)

/-- What is read at a strength: a whole expression at the lowest, else what stands above it. -/
def phraseAbove (strength : Nat) (e : Expr) : Phrase :=
  if strength = Strength.lowest then .expr e else .tier (tierAbove strength) e

/-- The strengths that expressions are read at: the lowest, and those of the operators with a right
    operand of a tier of its own. -/
def Reading (strength : Nat) : Prop :=
  strength = Strength.lowest ∨ Strength.logical ≤ strength ∧ strength ≤ Strength.before

/-- The routine reads an expression when fewer than `n` tokens are behind the current one, and leaves no
    operator behind it that it should have taken. -/
def ReadsExpr (n : Nat) (expr : Nat → Parse Expr) : Prop :=
  ∀ strength, Reading strength → ∀ s : State, s.rest.length < n →
    Reads Path s (expr strength) fun vs e s' =>
      Spells (phraseAbove strength e) (s.current :: vs) ∧ s'.current.kind ≠ .eof ∧
        s'.next.kind.strength ≤ strength

theorem ReadsExpr.lowest {n : Nat} {expr : Nat → Parse Expr} (h : ReadsExpr n expr) {s : State}
    (hn : s.rest.length < n) :
    Reads Path s (expr Strength.lowest) fun vs e s' =>
      Spells (.expr e) (s.current :: vs) ∧ s'.current.kind ≠ .eof ∧
        s'.next.kind.strength = Strength.lowest :=
  (h Strength.lowest (Or.inl rfl) s hn).mono fun _ _ _ _ he => ⟨he.1, he.2.1, Nat.le_zero.1 he.2.2⟩

/-- `Grown strength e us s`: reading at a strength has come to the expression `e`, spelled by `us`, and
    stands in `s`.  Calls and operators behind it may follow as long as there is no other operator;
    after that only operators may follow that bind no tighter than those already taken. -/
inductive Grown (strength : Nat) (e : Expr) (us : List Token) (s : State) : Prop
  | applied : Spells (.applied e) us → Grown strength e us s
  | tier (k : Nat) : tierAbove strength ≤ k → k ≤ Strength.before → Spells (.tier k e) us →
      s.next.kind.strength ≤ k → Grown strength e us s
  | whole : strength = Strength.lowest → Spells (.expr e) us →
      s.next.kind.strength = Strength.lowest → Grown strength e us s

namespace Grown

variable {strength : Nat} {e : Expr} {us : List Token} {s : State}

theorem tierAbove_le : tierAbove strength ≤ Strength.before := by
  unfold tierAbove
  simp only [Strength.logical, Strength.before]
  omega

/-- What stands in front of an operator between two expressions or of a choice. -/
theorem tier_of_next (h : Grown strength e us s) (hnext : Strength.lowest < s.next.kind.strength)
    {k : Nat} (hk : k ≤ max (tierAbove strength) s.next.kind.strength)
    (hhigh : k ≤ Strength.before) : Spells (.tier k e) us := by
  cases h with
  | applied h => exact Spells.looser hhigh (Nat.le_refl _) (Spells.applied h)
  | tier j habove hj h hle =>
    exact Spells.looser (Nat.le_trans hk (Nat.max_le.2 ⟨habove, hle⟩)) hj h
  | whole _ _ hzero => omega

/-- Only an expression without other operators can be called or take an operator behind it. -/
theorem applied_of_next (h : Grown strength e us s)
    (hnext : Strength.after ≤ s.next.kind.strength) : Spells (.applied e) us := by
  cases h with
  | applied h => exact h
  | tier j _ hj _ hle =>
    simp only [Strength.after, Strength.before] at hnext hj
    omega
  | whole _ _ hle =>
    simp only [Strength.after, Strength.lowest] at hnext hle
    omega

/-- What has been read when no operator is left to be taken. -/
theorem finish (h : Grown strength e us s) : Spells (phraseAbove strength e) us := by
  have htier : ∀ k, tierAbove strength ≤ k → k ≤ Strength.before → Spells (.tier k e) us →
      Spells (phraseAbove strength e) us := by
    intro k hk hbound hspell
    unfold phraseAbove
    split
    · rename_i hlow
      refine Spells.tier (Spells.looser (Nat.le_trans ?_ hk) hbound hspell)
      exact Nat.le_max_left _ _
    · exact Spells.looser hk hbound hspell
  cases h with
  | applied h => exact htier _ tierAbove_le (Nat.le_refl _) (Spells.applied h)
  | tier k hk hbound h _ => exact htier k hk hbound h
  | whole hlow h _ =>
    unfold phraseAbove
    rw [if_pos hlow]
    exact h

end Grown

/-! ## Operands -/

theorem readNumber_reads {α : Type} {s : State} {r : Except Fault α}
    (hbad : ∀ f, r = .error f → BadLiteral s.current f) :
    Reads Path s (readNumber r) fun vs a s' => vs = [] ∧ r = .ok a ∧ s' = s := by
  unfold readNumber
  cases r with
  | ok a => exact Reads.pure ⟨rfl, rfl, rfl⟩
  | error f => exact fun _ => ⟨s.current, List.mem_cons_self, f, hbad f rfl, rfl⟩

theorem before_reads {n : Nat} {expr : Nat → Parse Expr} (hexpr : ReadsExpr n expr) {strength : Nat}
    {s : State} (hn : s.rest.length < n + 1) (hk : s.current.kind ∈ operatorsBefore) :
    Reads Path s (do advance; return .before s.current s.current.literal (← expr Strength.before))
      fun vs e s' => Grown strength e (s.current :: vs) s' ∧ s'.current.kind ≠ .eof := by
  have heof : s.current.kind ≠ .eof := by
    intro h
    rw [h] at hk
    exact absurd hk (by decide)
  refine Reads.advance heof fun t s₁ _ hcur hpath => ?_
  have hlen := hpath.length_le
  simp only [List.length_singleton] at hlen
  refine (hexpr Strength.before (Or.inr (by decide)) s₁ (by omega)).bind fun vs e s₂ _ he => ?_
  obtain ⟨hspell, hs₂, hnext⟩ := he
  refine Reads.pure ⟨?_, hs₂⟩
  rw [hcur] at hspell
  refine Grown.tier Strength.before Grown.tierAbove_le (Nat.le_refl _) ?_ hnext
  simpa using Spells.before hk hspell

theorem operand_reads {n : Nat} {expr : Nat → Parse Expr} {tail : Token → Parse FunctionTail}
    (hexpr : ReadsExpr n expr) (htail : ∀ fn, ReadsBehind (n + 1) (tail fn) (.tail fn))
    (strength : Nat) {s : State} (hn : s.rest.length < n + 1) :
    Reads Path s (operand expr tail) fun vs e s' =>
      Grown strength e (s.current :: vs) s' ∧ s'.current.kind ≠ .eof := by
  have hatom : ∀ {e : Expr} {vs : List Token} {s' : State}, Spells (.atom e) (s.current :: vs) →
      Grown strength e (s.current :: vs) s' := fun h => Grown.applied (Spells.atom h)
  refine Reads.current ?_
  -- one case for each kind of token that starts an operand
  split
  · rename_i hk
    exact Reads.pure ⟨hatom (Spells.name hk), by rw [hk]; decide⟩
  · rename_i hk
    refine (readNumber_reads fun f hf => BadLiteral.int hk hf).bind fun vs i s' _ hi => Reads.pure ?_
    obtain ⟨rfl, hi, rfl⟩ := hi
    exact ⟨hatom (Spells.int hk hi), by rw [hk]; decide⟩
  · rename_i hk
    refine (readNumber_reads fun f hf => BadLiteral.float hk hf).bind fun vs x s' _ hx => Reads.pure ?_
    obtain ⟨rfl, hx, rfl⟩ := hx
    exact ⟨hatom (Spells.float hk hx), by rw [hk]; decide⟩
  · rename_i hk
    exact Reads.pure ⟨hatom (Spells.str hk), by rw [hk]; decide⟩
  · rename_i hk
    exact Reads.pure ⟨hatom (Spells.bool hk), by rw [hk]; decide⟩
  · rename_i hk
    exact before_reads hexpr hn (by rw [hk]; decide)
  · rename_i hk
    exact before_reads hexpr hn (by rw [hk]; decide)
  · rename_i hk
    exact before_reads hexpr hn (by rw [hk]; decide)
  · rename_i hk
    exact before_reads hexpr hn (by rw [hk]; decide)
  · rename_i hk
    refine Reads.advance (by rw [hk]; decide) fun t s₁ _ hcur hpath => ?_
    have hlen := hpath.length_le
    simp only [List.length_singleton] at hlen
    refine (hexpr.lowest (by omega)).bind fun vs e s₂ _ he => ?_
    refine Reads.expect (by decide) fun rp s₃ hrp hcur₃ _ => ?_
    refine Reads.pure ⟨hatom ?_, by rw [hcur₃, hrp]; decide⟩
    rw [hcur] at he
    simpa using Spells.paren hk he.1 hrp
  · rename_i hk
    refine (htail s.current s (by rw [hk]; decide) hn).bind fun vs f s₁ _ hf => ?_
    refine Reads.pure ⟨hatom ?_, hf.2⟩
    simpa using Spells.function hk hf.1
  · exact Reads.reject

/-! ## Extensions -/

theorem arguments_reads {n : Nat} {expr : Nat → Parse Expr} (hexpr : ReadsExpr n expr) {fuel : Nat}
    {s : State} (hs : s.current.kind ≠ .eof) (hn : s.rest.length < n + 1)
    (hfuel : s.rest.length < fuel) :
    Reads Path s (arguments expr fuel) fun vs es s' =>
      ∃ us rp, vs = us ++ [rp] ∧ Spells (.commas (es.map .expr)) us ∧ rp.kind = .rparen ∧
        s'.current = rp := by
  have hitem : ReadsBehind (n + 1) (do advance; expr Strength.lowest) .expr := by
    intro s hs hn
    refine Reads.advance hs fun t s₁ _ hcur hpath => ?_
    have hlen := hpath.length_le
    simp only [List.length_singleton] at hlen
    refine (hexpr.lowest (by omega)).mono fun vs e s₂ _ he => ?_
    rw [hcur] at he
    exact ⟨he.1, he.2.1⟩
  exact parenthesised_reads hitem hs hn hfuel

section Extension

variable {n : Nat} {expr : Nat → Parse Expr} (hexpr : ReadsExpr n expr) {strength : Nat}
  (hstrength : Reading strength) {left : Expr} {us : List Token} {s₀ s : State}
  (hleft : Grown strength left us s₀) (hnext : s₀.next = s.current)
  (htight : strength < s.current.kind.strength) (hn : s.rest.length < n + 1)

include htight in
theorem current_ne_eof_of_tight : s.current.kind ≠ .eof := by
  intro h
  rw [h] at htight
  exact absurd htight (Nat.not_lt_zero _)

include hexpr hleft htight hn in
theorem assign_reads {target : Name} (htarget : left = .name target)
    (hk : s.current.kind = .assign) :
    Reads Path s (do advance; return .assign s.current target (← expr Strength.lowest)) fun vs e s' =>
      Grown strength e (us ++ s.current :: vs) s' ∧ s'.current.kind ≠ .eof := by
  refine Reads.advance (current_ne_eof_of_tight htight) fun t s₁ _ hcur hpath => ?_
  have hlen := hpath.length_le
  simp only [List.length_singleton] at hlen
  refine (hexpr.lowest (by omega)).bind fun vs e s₂ _ he => ?_
  obtain ⟨hspell, hs₂, hlow⟩ := he
  rw [hcur] at hspell
  have hzero : strength = Strength.lowest := by
    rw [hk] at htight
    exact Nat.lt_one_iff.1 htight
  have hspelled : Spells (.expr (.name target)) us := by
    have hfinish := hleft.finish
    unfold phraseAbove at hfinish
    rwa [if_pos hzero, htarget] at hfinish
  have hname := Spells.target_of_name hspelled target (Or.inr (Or.inr (Or.inr rfl)))
  refine Reads.pure ⟨Grown.whole hzero ?_ hlow, hs₂⟩
  simpa using Spells.assign hname hk hspell

include hexpr hstrength hleft hnext htight hn in
theorem choice_reads (hk : s.current.kind = .question) :
    Reads Path s (do
      advance
      let onTrue ← expr Strength.lowest
      expect .colon
      advance
      return .choice s.current left onTrue (← expr Strength.lowest)) fun vs e s' =>
      Grown strength e (us ++ s.current :: vs) s' ∧ s'.current.kind ≠ .eof := by
  refine Reads.advance (current_ne_eof_of_tight htight) fun t s₁ _ hcur hpath => ?_
  have hlen := hpath.length_le
  simp only [List.length_singleton] at hlen
  refine (hexpr.lowest (by omega)).bind fun vs a s₂ hpath₂ ha => ?_
  rw [hcur] at ha
  have hlen₂ := hpath₂.length_le
  refine Reads.expect (by decide) fun c s₃ hc hcur₃ hpath₃ => ?_
  have hlen₃ := hpath₃.length_le
  refine Reads.advance (by rw [hcur₃, hc]; decide) fun t' s₄ _ hcur₄ hpath₄ => ?_
  have hlen₄ := hpath₄.length_le
  refine (hexpr.lowest (by omega)).bind fun ws b s₅ _ hb => ?_
  obtain ⟨hspell, hs₅, hlow⟩ := hb
  rw [hcur₄] at hspell
  have hzero : strength = Strength.lowest := by
    rw [hk] at htight
    rcases hstrength with h | ⟨h, -⟩
    · exact h
    · exact absurd (Nat.lt_of_le_of_lt h htight) (by decide)
  have htest : Spells (.tier Strength.logical left) us := by
    refine hleft.tier_of_next (by rw [hnext, hk]; decide) ?_ (by decide)
    exact Nat.le_trans (Nat.le_max_left _ _) (Nat.le_max_left _ _)
  refine Reads.pure ⟨Grown.whole hzero ?_ hlow, hs₅⟩
  simpa using Spells.choice htest hk ha.1 hc hspell

include hleft hnext htight in
theorem after_reads (hk : s.current.kind ∈ operatorsAfter) :
    Reads Path s (return .after s.current left s.current.literal) fun vs e s' =>
      Grown strength e (us ++ s.current :: vs) s' ∧ s'.current.kind ≠ .eof := by
  have hafter : Strength.after ≤ s.current.kind.strength := by
    simp only [operatorsAfter, List.mem_cons, List.not_mem_nil, or_false] at hk
    rcases hk with hk | hk <;> rw [hk] <;> decide
  have happlied := hleft.applied_of_next (by rw [hnext]; exact hafter)
  exact Reads.pure ⟨Grown.applied (Spells.after happlied hk), current_ne_eof_of_tight htight⟩

include hexpr hleft hnext htight hn in
theorem call_reads {fuel : Nat} (hfuel : s.rest.length < fuel) (hk : s.current.kind = .lparen) :
    Reads Path s (do return .call s.current left (← arguments expr fuel)) fun vs e s' =>
      Grown strength e (us ++ s.current :: vs) s' ∧ s'.current.kind ≠ .eof := by
  have happlied := hleft.applied_of_next (by rw [hnext, hk]; decide)
  refine (arguments_reads hexpr (current_ne_eof_of_tight htight) hn hfuel).bind
    fun vs es s₁ _ hes => ?_
  obtain ⟨vs, rp, rfl, hes, hrp, hcur⟩ := hes
  refine Reads.pure ⟨Grown.applied ?_, by rw [hcur, hrp]; decide⟩
  simpa using Spells.call happlied hk hes hrp

include hexpr hstrength hleft hnext htight hn in
theorem binary_reads (hop : s.current.kind ∈ operatorsAt s.current.kind.strength) :
    Reads Path s (do
      advance
      return .binary s.current left s.current.literal (← expr s.current.kind.strength))
      fun vs e s' => Grown strength e (us ++ s.current :: vs) s' ∧ s'.current.kind ≠ .eof := by
  obtain ⟨-, hge, hle⟩ := strength_of_mem_operatorsAt hop
  refine Reads.advance (current_ne_eof_of_tight htight) fun t s₁ _ hcur hpath => ?_
  have hlen := hpath.length_le
  simp only [List.length_singleton] at hlen
  have hreading : Reading s.current.kind.strength := Or.inr ⟨hge, Nat.le_trans hle (by decide)⟩
  refine (hexpr _ hreading s₁ (by omega)).bind fun vs e s₂ _ he => ?_
  obtain ⟨hspell, hs₂, hloose⟩ := he
  have hfollows : s₀.next.kind.strength = s.current.kind.strength := by rw [hnext]
  generalize s.current.kind.strength = k at *
  simp only [Strength.logical, Strength.product] at hge hle
  have hright : Spells (.tier (k + 1) e) (t :: vs) := by
    have habove : tierAbove k = k + 1 := by
      simp only [tierAbove, Strength.logical, Strength.before]
      omega
    unfold phraseAbove at hspell
    rwa [if_neg (by simp only [Strength.lowest]; omega), habove, hcur] at hspell
  have hbefore : k ≤ Strength.before := by simp only [Strength.before]; omega
  have hfirst : Spells (.tier k left) us := by
    refine hleft.tier_of_next ?_ ?_ hbefore
    · rw [hfollows, Strength.lowest]
      omega
    · rw [hfollows]
      exact Nat.le_max_right _ _
  have hgrown : tierAbove strength ≤ k := by
    rcases hstrength with h | ⟨h, -⟩ <;>
      simp only [tierAbove, Strength.logical, Strength.before, Strength.lowest] at h ⊢ <;> omega
  refine Reads.pure ⟨Grown.tier k hgrown hbefore ?_ hloose, hs₂⟩
  simpa using Spells.binary hfirst hop hright

include hexpr hstrength hleft hnext htight hn in
/-- An operator that binds tighter than `strength` extends what has been read at `strength`. -/
theorem extension_reads {fuel : Nat} (hfuel : s.rest.length < fuel) :
    Reads Path s (extension expr fuel left) fun vs e s' =>
      Grown strength e (us ++ s.current :: vs) s' ∧ s'.current.kind ≠ .eof := by
  refine Reads.current ?_
  split
  · rename_i hk
    split
    · exact assign_reads hexpr hleft htight hn rfl hk
    · exact Reads.reject
  · rename_i hk
    exact choice_reads hexpr hstrength hleft hnext htight hn hk
  · rename_i hk
    exact after_reads hleft hnext htight (by rw [hk]; decide)
  · rename_i hk
    exact after_reads hleft hnext htight (by rw [hk]; decide)
  · rename_i hk
    exact call_reads hexpr hleft hnext htight hn hfuel hk
  · rename_i hassign hquestion hincrement hdecrement hcall
    refine binary_reads hexpr hstrength hleft hnext htight hn ?_
    refine mem_operatorsAt_strength ?_ hassign hquestion ?_ hcall
    · exact Nat.ne_of_gt (Nat.lt_of_le_of_lt (Nat.zero_le _) htight)
    · simp only [operatorsAfter, List.mem_cons, List.not_mem_nil, or_false]
      exact fun h => h.elim hincrement hdecrement

end Extension

/-! ## Whole expressions -/

section Whole

variable {n : Nat} {expr : Nat → Parse Expr} (hexpr : ReadsExpr n expr) {fuel : Nat}
  (hfuel : n + 1 ≤ fuel) {strength : Nat} (hstrength : Reading strength)

include hexpr hfuel hstrength in
/-- Every extension takes its operator, so there are no more of them than tokens. -/
theorem climb_reads (steps : Nat) :
    ∀ (left : Expr) (us : List Token) (s : State), Grown strength left us s →
      s.current.kind ≠ .eof → s.rest.length < n + 1 → s.rest.length < steps →
      Reads Path s (climb (extension expr fuel) strength steps left) fun vs e s' =>
        Spells (phraseAbove strength e) (us ++ vs) ∧ s'.current.kind ≠ .eof ∧
          s'.next.kind.strength ≤ strength := by
  induction steps with
  | zero => intro _ _ s _ _ _ h; omega
  | succ steps ih =>
    intro left us s hleft hs hn hsteps
    refine Reads.peek ?_
    by_cases htight : strength < s.next.kind.strength
    · -- the operator takes what is read so far as its left side
      rw [if_pos htight]
      refine Reads.advance hs fun t s₁ hnext hcur hpath => ?_
      have hlen := hpath.length_le
      simp only [List.length_singleton] at hlen
      rw [hnext, ← hcur] at htight
      refine (extension_reads hexpr hstrength hleft (hnext.trans hcur.symm) htight (by omega)
        (by omega)).bind fun vs e s₂ hpath₂ he => ?_
      have hlen₂ := hpath₂.length_le
      refine (ih e _ s₂ he.1 he.2 (by omega) (by omega)).mono fun ws e' s₃ _ he' => ?_
      rw [hcur] at he'
      simpa using he'
    · -- a looser operator is left to whoever asked for this expression
      rw [if_neg htight]
      refine Reads.pure ⟨?_, hs, Nat.le_of_not_lt htight⟩
      simpa using hleft.finish

include hexpr hfuel in
theorem expressionRule_reads {tail : Token → Parse FunctionTail}
    (htail : ∀ fn, ReadsBehind (n + 1) (tail fn) (.tail fn)) :
    ReadsExpr (n + 1) (expressionRule expr tail fuel) := by
  intro strength hstrength s hn
  refine (operand_reads hexpr htail strength hn).bind fun vs e s₁ hpath he => ?_
  have hlen := hpath.length_le
  exact climb_reads hexpr hfuel hstrength fuel e _ s₁ he.1 he.2 (by omega) (by omega)

end Whole

end ScriptLang.Parse
