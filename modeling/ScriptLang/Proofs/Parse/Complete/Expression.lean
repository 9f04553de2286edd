import ScriptLang.Proofs.Parse.Complete.Declared

/-!
  What is spelled is read: expressions.

  Reading at a strength comes to a point where it holds the expression `e` and decides by the next
  token how to go on.  `Climbs` says that it comes to that point behind the tokens of `e`.  For a phrase
  of a tier this holds at every strength below the tier, as long as no token follows that one of its
  parts would take; the operator behind a phrase then takes the loop one step further.

  Specification: `TakesExpr`, with one lemma for each rule of the grammar.  Crux: `Climbs.step` and
  `Climbs.accepts`, by which the strength of the next token alone decides whether the loop goes on.
-/

namespace ScriptLang.Parse

/-- Reading at a strength takes the tokens `us` in front of `rest` and then holds `e`, with the loop that
    extends it still to run. -/
def Climbs (s : State) (fuel strength : Nat) (e : Expr) (us rest : List Token) : Prop :=
  s.rest = us ++ rest → ∃ steps, rest.length < steps ∧
    expression (fuel + 1) strength s =
      climb (extension (expression fuel) fuel) strength steps e (s.past us rest)

/-- The first token of the atom is current, as for all of these. -/
def TakesAtom (e : Expr) (ts : List Token) : Prop :=
  ∀ {s us rest fuel}, ts = s.current :: us → 2 * (us.length + rest.length) + 2 ≤ fuel →
    Accepts s (operand (expression fuel) (functionTail (block fuel) fuel)) e us rest

/-- Calls and operators behind an operand are taken at every strength. -/
def TakesApplied (e : Expr) (ts : List Token) : Prop :=
  ∀ {s us rest fuel strength}, ts = s.current :: us → 2 * (us.length + rest.length) + 2 ≤ fuel →
    strength ≤ Strength.before → Climbs s fuel strength e us rest

/-- A tier is read at a strength below it; what the operators in front of an operand take is of the
    highest tier and read at the strength of that tier. -/
def TakesTier (k : Nat) (e : Expr) (ts : List Token) : Prop :=
  ∀ {s us rest fuel strength}, ts = s.current :: us → 2 * (us.length + rest.length) + 2 ≤ fuel →
    strength ≤ Strength.before → min (strength + 1) Strength.before ≤ k →
    Leads (·.strength ≤ k) rest → Climbs s fuel strength e us rest

/-- Nothing follows that an expression could go on with. -/
def TakesExpr (e : Expr) (ts : List Token) : Prop :=
  ∀ {s us rest fuel}, ts = s.current :: us → 2 * (us.length + rest.length) + 3 ≤ fuel →
    Leads (·.strength = Strength.lowest) rest → Accepts s (expression fuel Strength.lowest) e us rest

namespace Climbs

variable {s : State} {fuel strength : Nat} {e e' : Expr} {us vs rest : List Token} {t : Token}

/-- The loop starts with the operand. -/
theorem of_operand
    (h : Accepts s (operand (expression fuel) (functionTail (block fuel) fuel)) e us rest)
    (hfuel : rest.length < fuel) : Climbs s fuel strength e us rest := by
  intro hrest
  exact ⟨fuel, hfuel, run_bind (h hrest) _⟩

/-- A token that binds tighter takes the loop one step further. -/
theorem step (h : Climbs s fuel strength e us (t :: vs ++ rest)) (ht : strength < t.kind.strength)
    (hext : Accepts (s.past (us ++ [t]) (vs ++ rest)) (extension (expression fuel) fuel e) e' vs rest) :
    Climbs s fuel strength e' (us ++ t :: vs) rest := by
  intro hrest
  obtain ⟨steps, hsteps, hrun⟩ := h (by rw [hrest, List.append_assoc])
  simp only [List.cons_append, List.length_cons, List.length_append] at hsteps
  cases steps with
  | zero => omega
  | succ steps =>
    refine ⟨steps, by omega, hrun.trans ?_⟩
    show (if strength < t.kind.strength then
      (advance >>= fun _ => extension (expression fuel) fuel e >>= climb _ strength steps)
      else pure e) (s.past us (t :: (vs ++ rest))) = _
    rw [if_pos ht]
    have hstep : advance (s.past us (t :: (vs ++ rest))) = .ok () (s.past (us ++ [t]) (vs ++ rest)) := by
      rw [← State.past_past _ _ _ (t :: (vs ++ rest))]
      rfl
    rw [run_bind hstep, run_bind (hext rfl), State.past_past, List.append_assoc]
    rfl

/-- A token that binds no tighter ends the loop. -/
theorem accepts (h : Climbs s fuel strength e us rest) (hnext : Leads (·.strength ≤ strength) rest) :
    Accepts s (expression (fuel + 1) strength) e us rest := by
  intro hrest
  obtain ⟨steps, hsteps, hrun⟩ := h hrest
  obtain ⟨t, rest, rfl, ht⟩ := hnext.exists_cons
  cases steps with
  | zero => omega
  | succ steps =>
    refine hrun.trans ?_
    show (if strength < t.kind.strength then _ else (pure e : Parse Expr)) (s.past us (t :: rest)) = _
    rw [if_neg (Nat.not_lt.2 ht)]
    rfl

end Climbs

/-! ## Atoms -/

/-- The loop ends at once. -/
theorem TakesAtom.expr {e : Expr} {ts : List Token} (h : TakesAtom e ts) : TakesExpr e ts := by
  intro s us rest fuel hts hfuel hnext
  cases fuel with
  | zero => omega
  | succ fuel =>
    refine Climbs.accepts (Climbs.of_operand (h hts (by omega)) (by omega)) ?_
    exact hnext.mono fun _ hk => Nat.le_of_eq hk

theorem takesAtom_name {t : Token} (ht : t.kind = .ident) :
    TakesAtom (.name ⟨t, t.literal⟩) [t] := by
  intro s us rest fuel hts _
  cases hts
  refine Accepts.current ?_
  rw [ht]
  exact Accepts.pure

theorem takesAtom_int {t : Token} {n : Int} (ht : t.kind = .int)
    (hn : Number.readInteger t.literal = .ok n) : TakesAtom (.int t n) [t] := by
  intro s us rest fuel hts _
  cases hts
  refine Accepts.current ?_
  rw [ht]
  refine Accepts.map ?_
  rw [hn]
  exact Accepts.pure

theorem takesAtom_float {t : Token} {x : Float} (ht : t.kind = .float)
    (hx : Number.readFloat t.literal = .ok x) : TakesAtom (.float t x) [t] := by
  intro s us rest fuel hts _
  cases hts
  refine Accepts.current ?_
  rw [ht]
  refine Accepts.map ?_
  rw [hx]
  exact Accepts.pure

theorem takesAtom_str {t : Token} (ht : t.kind = .string) : TakesAtom (.str t t.literal) [t] := by
  intro s us rest fuel hts _
  cases hts
  refine Accepts.current ?_
  rw [ht]
  exact Accepts.pure

theorem takesAtom_bool {t : Token} (ht : t.kind = .boolean) :
    TakesAtom (.bool t (t.literal = "true")) [t] := by
  intro s us rest fuel hts _
  cases hts
  refine Accepts.current ?_
  rw [ht]
  exact Accepts.pure

/-- An expression in parentheses is read from the lowest strength again. -/
theorem takesAtom_paren {lp rp : Token} {e : Expr} {us : List Token} (hlp : lp.kind = .lparen)
    (he : TakesExpr e us) (hus : Leads (· ∈ exprFirst) us) (hrp : rp.kind = .rparen) :
    TakesAtom e (lp :: us ++ [rp]) := by
  intro s ts rest fuel hts hfuel
  obtain ⟨rfl, rfl⟩ : lp = s.current ∧ us ++ [rp] = ts := by simpa using hts
  obtain ⟨u, us, rfl, -⟩ := hus.exists_cons
  simp only [List.length_append, List.length_cons] at hfuel
  refine Accepts.current ?_
  rw [hlp]
  refine Accepts.advance ?_
  refine Accepts.bind (he rfl (by simp; omega) (by show rp.kind.strength = _; rw [hrp]; rfl)) ?_
  exact Accepts.expect hrp Accepts.pure

/-- A function literal: the `fn`, and the rest as for a declaration. -/
theorem takesAtom_function {fn : Token} {f : FunctionTail} {us : List Token} (hfn : fn.kind = .fnWord)
    (hf : TakesTail fn f us) : TakesAtom (.function fn f.parameters f.returns f.body) (fn :: us) := by
  intro s ts rest fuel hts hfuel
  cases hts
  refine Accepts.current ?_
  rw [hfn]
  exact Accepts.map (f := fun f : FunctionTail => Expr.function s.current f.parameters f.returns f.body)
    (hf (by omega))

/-! ## Calls and operators -/

/-- The loop is about to start. -/
theorem TakesAtom.applied {e : Expr} {ts : List Token} (h : TakesAtom e ts) : TakesApplied e ts := by
  intro s us rest fuel strength hts hfuel _
  exact Climbs.of_operand (h hts hfuel) (by omega)

/-- `e++`, which binds tighter than all that can be in front of `e`. -/
theorem takesApplied_after {t : Token} {e : Expr} {us : List Token} (he : TakesApplied e us)
    (hus : Leads (· ∈ exprFirst) us) (ht : t.kind ∈ operatorsAfter) :
    TakesApplied (.after t e t.literal) (us ++ [t]) := by
  intro s ts rest fuel strength hts hfuel hstrength
  obtain ⟨u, us, rfl, -⟩ := hus.exists_cons
  obtain ⟨rfl, rfl⟩ : u = s.current ∧ us ++ [t] = ts := by simpa using hts
  simp only [List.length_append, List.length_cons, List.length_nil] at hfuel
  have htight : t.kind.strength = Strength.after := by
    have hall : ∀ k ∈ operatorsAfter, k.strength = Strength.after := by decide
    exact hall _ ht
  refine Climbs.step (he rfl (by simp; omega) hstrength) ?_ ?_
  · rw [htight]
    exact Nat.lt_succ_of_le hstrength
  refine Accepts.current ?_
  have hcur : (s.past (us ++ [t]) ([] ++ rest)).current = t := by simp
  rw [hcur]
  simp only [operatorsAfter, List.mem_cons, List.not_mem_nil, or_false] at ht
  rcases ht with ht | ht
  · rw [ht]
    exact Accepts.pure
  · rw [ht]
    exact Accepts.pure

/-- The arguments of a call up to the closing parenthesis. -/
theorem arguments_accepts {es : List Expr} {us rest : List Token} {rp : Token} {fuel : Nat} {s : State}
    {R : Phrase → List Token → Prop} (hes : Separated R (es.map .expr) us)
    (hitem : ∀ e ts, R (.expr e) ts → Leads (· ∈ exprFirst) ts ∧ TakesExpr e ts)
    (hrp : rp.kind = .rparen) (hfuel : 2 * (us.length + rest.length) + 3 ≤ fuel) :
    Accepts s (arguments (expression fuel) fuel) es (us ++ [rp]) rest := by
  have hinner : AcceptsItem R (us.length + rest.length + 1)
      (do advance; expression fuel Strength.lowest) .expr := by
    intro e ts he
    obtain ⟨hfirst, htakes⟩ := hitem e ts he
    refine ⟨hfirst.ne_of_mem (by decide), fun s rest' hn hnext => ?_⟩
    obtain ⟨t, ts, rfl, -⟩ := hfirst.exists_cons
    simp only [List.length_cons] at hn
    refine Accepts.advance (htakes rfl (by omega) (hnext.mono fun k hk => ?_))
    rcases hk with rfl | rfl <;> rfl
  exact parenthesised_accepts hinner hes hrp (by omega) (by omega)

/-- `e(…)`, which binds tighter than all that can be in front of `e`. -/
theorem takesApplied_call {lp rp : Token} {e : Expr} {es : List Expr} {us vs : List Token}
    {R : Phrase → List Token → Prop} (he : TakesApplied e us) (hus : Leads (· ∈ exprFirst) us)
    (hlp : lp.kind = .lparen) (hes : Separated R (es.map .expr) vs)
    (hitem : ∀ e ts, R (.expr e) ts → Leads (· ∈ exprFirst) ts ∧ TakesExpr e ts)
    (hrp : rp.kind = .rparen) : TakesApplied (.call lp e es) (us ++ lp :: vs ++ [rp]) := by
  intro s ts rest fuel strength hts hfuel hstrength
  obtain ⟨u, us, rfl, -⟩ := hus.exists_cons
  obtain ⟨rfl, rfl⟩ : u = s.current ∧ us ++ lp :: (vs ++ [rp]) = ts := by simpa using hts
  simp only [List.length_append, List.length_cons, List.length_nil] at hfuel
  refine Climbs.step (he rfl (by simp; omega) hstrength) ?_ ?_
  · rw [hlp]
    exact Nat.lt_of_le_of_lt hstrength (by decide)
  refine Accepts.current ?_
  have hcur : (s.past (us ++ [lp]) ((vs ++ [rp]) ++ rest)).current = lp := by simp
  rw [hcur, hlp]
  exact Accepts.map (arguments_accepts hes hitem hrp (by omega))

/-! ## Tiers -/

theorem TakesApplied.tier {e : Expr} {ts : List Token} (h : TakesApplied e ts) :
    TakesTier Strength.before e ts :=
  fun hts hfuel hstrength _ _ => h hts hfuel hstrength

/-- What is taken in a tighter tier is taken in a looser one. -/
theorem TakesTier.looser {k : Nat} {e : Expr} {ts : List Token} (h : TakesTier (k + 1) e ts) :
    TakesTier k e ts :=
  fun hts hfuel hstrength hk hnext =>
    h hts hfuel hstrength (by omega) (hnext.mono fun _ hle => Nat.le_succ_of_le hle)

/-- `-e`: the operand is read at the strength of the highest tier, as are the operators in front of it. -/
theorem takesTier_before {t : Token} {e : Expr} {us : List Token} (ht : t.kind ∈ operatorsBefore)
    (he : TakesTier Strength.before e us) (hus : Leads (· ∈ exprFirst) us) :
    TakesTier Strength.before (.before t t.literal e) (t :: us) := by
  intro s ts rest fuel strength hts hfuel _ _ hnext
  cases hts
  obtain ⟨u, us, rfl, -⟩ := hus.exists_cons
  simp only [List.length_cons] at hfuel
  refine Climbs.of_operand ?_ (by omega)
  obtain ⟨fuel, rfl⟩ : ∃ n, fuel = n + 1 := ⟨fuel - 1, by omega⟩
  have hinner : Accepts s
      (do advance; return Expr.before s.current s.current.literal (← expression (fuel + 1) Strength.before))
      (Expr.before s.current s.current.literal e) (u :: us) rest := by
    refine Accepts.advance (Accepts.map ?_)
    exact (he rfl (by omega) (Nat.le_refl _) (by decide) hnext).accepts hnext
  refine Accepts.current ?_
  simp only [operatorsBefore, List.mem_cons, List.not_mem_nil, or_false] at ht
  rcases ht with ht | ht | ht | ht
  all_goals
    rw [ht]
    exact hinner

/-- `l + r`: operators of one tier are grouped to the left. -/
theorem takesTier_binary {k : Nat} {t : Token} {l r : Expr} {us vs : List Token}
    (hl : TakesTier k l us) (hus : Leads (· ∈ exprFirst) us) (ht : t.kind ∈ operatorsAt k)
    (hr : TakesTier (k + 1) r vs) (hvs : Leads (· ∈ exprFirst) vs) :
    TakesTier k (.binary t l t.literal r) (us ++ t :: vs) := by
  intro s ts rest fuel strength hts hfuel hstrength hk hnext
  obtain ⟨u, us, rfl, -⟩ := hus.exists_cons
  obtain ⟨v, vs, rfl, -⟩ := hvs.exists_cons
  obtain ⟨rfl, rfl⟩ : u = s.current ∧ us ++ t :: v :: vs = ts := by simpa using hts
  simp only [List.length_append, List.length_cons] at hfuel
  obtain ⟨htight, hlow, hhigh⟩ := strength_of_mem_operatorsAt ht
  have hbelow : strength < t.kind.strength := by
    rw [htight]
    simp only [Strength.before, Strength.product] at hk hhigh
    omega
  refine Climbs.step (hl rfl (by simp; omega) hstrength hk (Nat.le_of_eq htight)) hbelow ?_
  obtain ⟨fuel, rfl⟩ : ∃ n, fuel = n + 1 := ⟨fuel - 1, by omega⟩
  -- The right side is read at the strength of the operator, so an equal one behind it stays outside.
  have hinner : Accepts (s.past (us ++ [t]) ((v :: vs) ++ rest))
      (do advance; return Expr.binary t l t.literal (← expression (fuel + 1) t.kind.strength))
      (Expr.binary t l t.literal r) (v :: vs) rest := by
    refine Accepts.advance (Accepts.map ?_)
    rw [htight]
    refine (hr rfl (by omega) (Nat.le_succ_of_le hhigh) (Nat.min_le_left _ _) ?_).accepts hnext
    exact hnext.mono fun _ hle => Nat.le_succ_of_le hle
  refine Accepts.current ?_
  have hcur : (s.past (us ++ [t]) ((v :: vs) ++ rest)).current = t := by simp
  rw [hcur]
  -- The routine chooses by the kind of the operator, and all of them do the same.
  unfold operatorsAt at ht
  split at ht
  all_goals
    simp only [List.mem_cons, List.not_mem_nil, or_false] at ht
  · rcases ht with ht | ht <;> (rw [ht] at hinner ⊢; exact hinner)
  · rcases ht with ht | ht <;> (rw [ht] at hinner ⊢; exact hinner)
  · rcases ht with ht | ht | ht | ht <;> (rw [ht] at hinner ⊢; exact hinner)
  · rcases ht with ht | ht <;> (rw [ht] at hinner ⊢; exact hinner)
  · rcases ht with ht | ht | ht <;> (rw [ht] at hinner ⊢; exact hinner)

/-! ## Whole expressions -/

/-- The loosest tier, in front of a token that goes on with no expression. -/
theorem TakesTier.expr {e : Expr} {ts : List Token} (h : TakesTier Strength.logical e ts) :
    TakesExpr e ts := by
  intro s us rest fuel hts hfuel hnext
  obtain ⟨fuel, rfl⟩ : ∃ n, fuel = n + 1 := ⟨fuel - 1, by omega⟩
  refine (h hts (by omega) (by decide) (by decide) ?_).accepts ?_
  · exact hnext.mono fun _ hk => by rw [hk]; decide
  · exact hnext.mono fun _ hk => Nat.le_of_eq hk

/-- `e ? a : b` -/
theorem takesExpr_choice {q c : Token} {e a b : Expr} {us vs ws : List Token}
    (he : TakesTier Strength.logical e us) (hus : Leads (· ∈ exprFirst) us) (hq : q.kind = .question)
    (ha : TakesExpr a vs) (hvs : Leads (· ∈ exprFirst) vs) (hc : c.kind = .colon)
    (hb : TakesExpr b ws) (hws : Leads (· ∈ exprFirst) ws) :
    TakesExpr (.choice q e a b) (us ++ q :: vs ++ c :: ws) := by
  intro s ts rest fuel hts hfuel hnext
  obtain ⟨u, us, rfl, -⟩ := hus.exists_cons
  obtain ⟨v, vs, rfl, -⟩ := hvs.exists_cons
  obtain ⟨w, ws, rfl, -⟩ := hws.exists_cons
  obtain ⟨rfl, rfl⟩ : u = s.current ∧ us ++ q :: (v :: (vs ++ c :: w :: ws)) = ts := by simpa using hts
  simp only [List.length_append, List.length_cons] at hfuel
  obtain ⟨fuel, rfl⟩ : ∃ n, fuel = n + 1 := ⟨fuel - 1, by omega⟩
  refine Climbs.accepts (Climbs.step (he rfl (by simp; omega) (by decide) (by decide) ?_) ?_ ?_) ?_
  · show q.kind.strength ≤ _
    rw [hq]
    decide
  · rw [hq]
    decide
  · refine Accepts.current ?_
    have hcur : (s.past (us ++ [q]) (v :: (vs ++ c :: w :: ws) ++ rest)).current = q := by simp
    rw [hcur, hq]
    refine Accepts.advance ?_
    refine Accepts.bind (ha rfl (by simp; omega) (by show c.kind.strength = _; rw [hc]; rfl)) ?_
    refine Accepts.expect hc (Accepts.advance (Accepts.map ?_))
    exact hb rfl (by omega) hnext
  · exact hnext.mono fun _ hk => Nat.le_of_eq hk

/-- `x = e`: the target is held when the loop comes to the `=`. -/
theorem takesExpr_assign {t : Token} {n : Name} {e : Expr} {us vs : List Token}
    (hn : TakesAtom (.name n) us) (hus : Leads (· ∈ exprFirst) us) (ht : t.kind = .assign)
    (he : TakesExpr e vs) (hvs : Leads (· ∈ exprFirst) vs) :
    TakesExpr (.assign t n e) (us ++ t :: vs) := by
  intro s ts rest fuel hts hfuel hnext
  obtain ⟨u, us, rfl, -⟩ := hus.exists_cons
  obtain ⟨v, vs, rfl, -⟩ := hvs.exists_cons
  obtain ⟨rfl, rfl⟩ : u = s.current ∧ us ++ t :: v :: vs = ts := by simpa using hts
  simp only [List.length_append, List.length_cons] at hfuel
  obtain ⟨fuel, rfl⟩ : ∃ n, fuel = n + 1 := ⟨fuel - 1, by omega⟩
  refine Climbs.accepts (Climbs.step (hn.applied rfl (by simp; omega) (by decide)) ?_ ?_) ?_
  · rw [ht]
    decide
  · refine Accepts.current ?_
    have hcur : (s.past (us ++ [t]) (v :: vs ++ rest)).current = t := by simp
    rw [hcur, ht]
    exact Accepts.advance (Accepts.map (he rfl (by omega) hnext))
  · exact hnext.mono fun _ hk => Nat.le_of_eq hk

end ScriptLang.Parse
