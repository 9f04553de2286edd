import ScriptLang.Proofs.Parse.Complete.Expression

/-!
  What is spelled is read: statements and programs.

  The lemmas of the three modules are one for each rule of the grammar, so `Spells.settled` puts them
  together by induction on the rules.  For whole programs that is the converse of what the soundness
  of the routines says.

  Specification: `program_accepts`.  Crux: the routines decide by one token of look-ahead, so each lemma has
  to know how the next phrase begins.  An `else` is the only token that a finished statement could still
  take, and `TakesStatement` rules it out.  The bounds count two steps for each token that is left, since a
  statement in a block and an expression in a statement each go one level deeper.
-/

namespace ScriptLang.Parse

/-- The routines inside a statement that is read with one more level of nesting. -/
abbrev partsAt (fuel : Nat) : Parts := ⟨expression fuel, block fuel, fuel⟩

/-- An expression that may be left out. -/
def TakesOptional : Option Expr → List Token → Prop
  | none, us => us = []
  | some e, us => TakesExpr e us ∧ Leads (· ∈ exprFirst) us

/-- The `var` is current, and the semicolon is taken too. -/
def TakesVar (st : Stmt) (ts : List Token) : Prop :=
  ∀ {s us rest fuel}, ts = s.current :: us → 2 * (us.length + rest.length) + 3 ≤ fuel →
    Accepts s (partsAt fuel).varStatement st us rest

/-- The first part of a `for` loop up to its semicolon. -/
def TakesInit (i : Option Stmt) (ts : List Token) : Prop :=
  ∀ {s us rest fuel}, ts = s.current :: us → 2 * (us.length + rest.length) + 3 ≤ fuel →
    Accepts s (partsAt fuel).forInit i us rest

/-- An `else` would belong to the branch. -/
def TakesBranch (inFunction : Bool) (st : Stmt) (ts : List Token) : Prop :=
  ∀ {s us rest fuel steps}, ts = s.current :: us → s.inFunction = inFunction →
    2 * (us.length + rest.length) + 3 ≤ fuel → us.length + rest.length ≤ steps →
    Leads (· ≠ .elseWord) rest → Accepts s ((partsAt fuel).branchStatement steps) st us rest

/-- No `else` follows, since it would belong to a branch at the end of the statement. -/
def TakesStatement (inFunction : Bool) (st : Stmt) (ts : List Token) : Prop :=
  ∀ {s us rest fuel}, ts = s.current :: us → s.inFunction = inFunction →
    2 * (us.length + rest.length) + 4 ≤ fuel → Leads (· ≠ .elseWord) rest →
    Accepts s (statement fuel) (some st) us rest

/-- The type that is kept is the written one, or that of the value; no token is taken. -/
theorem reconcile_accepts {s : State} {kind : DeclarationKind} {name : Name} {d kept : Option TypeName}
    {e : Expr} {rest : List Token} (h : KeepsType d e kept) :
    Accepts s (reconcile kind name d e) kept [] rest := by
  unfold reconcile
  cases h with
  | inferred => exact Accepts.pure
  | declared agrees =>
    -- a type is written, so the value only has to agree with it
    split
    · contradiction
    · rename_i heq _
      cases heq
      exact Accepts.pure
    · rename_i d i heq hi
      cases heq
      rw [if_pos (agrees i hi)]
      exact Accepts.pure

section Parts

variable {s : State} {fuel : Nat} {rest : List Token}

/-- An expression behind the current token. -/
theorem nextExpr_accepts {e : Expr} {us : List Token} (he : TakesExpr e us)
    (hus : Leads (· ∈ exprFirst) us) (hfuel : 2 * (us.length + rest.length) + 1 ≤ fuel)
    (hnext : Leads (·.strength = Strength.lowest) rest) :
    Accepts s (partsAt fuel).nextExpr e us rest := by
  obtain ⟨u, us, rfl, -⟩ := hus.exists_cons
  simp only [List.length_cons] at hfuel
  exact Accepts.advance (he rfl (by omega) hnext)

/-- The test of a branch or a loop, in its parentheses. -/
theorem test_accepts {lp rp : Token} {e : Expr} {us : List Token} (hlp : lp.kind = .lparen)
    (he : TakesExpr e us) (hus : Leads (· ∈ exprFirst) us) (hrp : rp.kind = .rparen)
    (hfuel : 2 * (us.length + rest.length) + 3 ≤ fuel) :
    Accepts s (partsAt fuel).test e (lp :: us ++ [rp]) rest := by
  refine Accepts.expect hlp ?_
  refine Accepts.bind (nextExpr_accepts he hus (by simp; omega)
    (by show rp.kind.strength = _; rw [hrp]; rfl)) ?_
  exact Accepts.expect hrp Accepts.pure

/-- A block behind the current token. -/
theorem nextBlock_accepts {f : Bool} {b : Block} {us : List Token} (hb : TakesBlock f b us)
    (hus : Leads (· = .lbrace) us) (hflag : s.inFunction = f) (hfuel : 2 * (us.length + rest.length) + 1 ≤ fuel) :
    Accepts s (partsAt fuel).nextBlock b us rest := by
  obtain ⟨lb, us, rfl, hlb⟩ := hus.exists_cons
  simp only [List.length_cons] at hfuel
  exact Accepts.expect hlb (hb rfl hflag (by omega))

end Parts

/-! ## Declarations -/

/-- `var x: int = e;`, with the type or without it. -/
theorem takesVar_value {v n eq sc : Token} {d kept : Option TypeName} {e : Expr} {us vs : List Token}
    (hn : n.kind = .ident) (hd : TakesDeclared d us) (heq : eq.kind = .assign) (he : TakesExpr e vs)
    (hvs : Leads (· ∈ exprFirst) vs) (hkept : KeepsType d e kept) (hsc : sc.kind = .semicolon) :
    TakesVar (.var v ⟨n, n.literal⟩ kept (some e)) (v :: n :: us ++ eq :: vs ++ [sc]) := by
  intro s ts rest fuel hts hfuel
  obtain ⟨rfl, rfl⟩ : v = s.current ∧ [n] ++ (us ++ eq :: (vs ++ [sc])) = ts := by simpa using hts
  simp only [List.length_append, List.length_cons, List.length_nil] at hfuel
  refine Accepts.current (Accepts.bind (expectName_accepts hn) ?_)
  refine Accepts.bind (hd (by simp; omega) (by show eq.kind ≠ _; rw [heq]; decide)) ?_
  refine Accepts.peekIs heq (Accepts.advance ?_)
  refine Accepts.bind (nextExpr_accepts he hvs (by simp; omega)
    (by show sc.kind.strength = _; rw [hsc]; rfl)) ?_
  exact Accepts.silent (reconcile_accepts hkept) (Accepts.expect hsc Accepts.pure)

/-- `var x: int;` -/
theorem takesVar_type {v n sc : Token} {d : TypeName} {us : List Token} (hn : n.kind = .ident)
    (hd : TakesDeclared (some d) us) (hsc : sc.kind = .semicolon) :
    TakesVar (.var v ⟨n, n.literal⟩ (some d) none) (v :: n :: us ++ [sc]) := by
  intro s ts rest fuel hts hfuel
  obtain ⟨rfl, rfl⟩ : v = s.current ∧ [n] ++ (us ++ [sc]) = ts := by simpa using hts
  simp only [List.length_append, List.length_cons, List.length_nil] at hfuel
  refine Accepts.current (Accepts.bind (expectName_accepts hn) ?_)
  refine Accepts.bind (hd (by simp; omega) (by show sc.kind ≠ _; rw [hsc]; decide)) ?_
  refine Accepts.peekIsNot (by show sc.kind ≠ _; rw [hsc]; decide) ?_
  exact Accepts.expect hsc Accepts.pure

/-- `const x: int = e;`, with the type or without it. -/
theorem takesStatement_const {f : Bool} {c n eq sc : Token} {d kept : Option TypeName} {e : Expr}
    {us vs : List Token} (hc : c.kind = .constWord) (hn : n.kind = .ident) (hd : TakesDeclared d us)
    (heq : eq.kind = .assign) (he : TakesExpr e vs) (hvs : Leads (· ∈ exprFirst) vs)
    (hkept : KeepsType d e kept) (hsc : sc.kind = .semicolon) :
    TakesStatement f (.const c ⟨n, n.literal⟩ kept e) (c :: n :: us ++ eq :: vs ++ [sc]) := by
  intro s ts rest fuel hts hflag hfuel _
  obtain ⟨rfl, rfl⟩ : c = s.current ∧ [n] ++ (us ++ eq :: (vs ++ [sc])) = ts := by simpa using hts
  simp only [List.length_append, List.length_cons, List.length_nil] at hfuel
  obtain ⟨fuel, rfl⟩ : ∃ m, fuel = m + 1 := ⟨fuel - 1, by omega⟩
  refine Accepts.current ?_
  rw [hc]
  refine Accepts.map (Accepts.current (Accepts.bind (expectName_accepts hn) ?_))
  refine Accepts.bind (hd (by simp; omega) (by show eq.kind ≠ _; rw [heq]; decide)) ?_
  refine Accepts.peekIs heq (Accepts.advance ?_)
  refine Accepts.bind (nextExpr_accepts he hvs (by simp; omega)
    (by show sc.kind.strength = _; rw [hsc]; rfl)) ?_
  exact Accepts.silent (reconcile_accepts hkept) (Accepts.expect hsc Accepts.pure)

theorem TakesVar.statement {f : Bool} {st : Stmt} {ts : List Token} (h : TakesVar st ts)
    (hts : Leads (· = .varWord) ts) : TakesStatement f st ts := by
  intro s us rest fuel heq hflag hfuel _
  obtain ⟨fuel, rfl⟩ : ∃ m, fuel = m + 1 := ⟨fuel - 1, by omega⟩
  have hk : s.current.kind = .varWord := by rw [heq] at hts; exact hts
  refine Accepts.current ?_
  rw [hk]
  exact Accepts.map (h heq (by omega))

/-! ## Branches -/

/-- `if (e) b` where no `else` follows. -/
theorem takesBranch_only {f : Bool} {i lp rp : Token} {e : Expr} {b : Block} {us vs : List Token}
    (hlp : lp.kind = .lparen) (he : TakesExpr e us) (hus : Leads (· ∈ exprFirst) us)
    (hrp : rp.kind = .rparen) (hb : TakesBlock f b vs) (hvs : Leads (· = .lbrace) vs) :
    TakesBranch f (.branch i e b none) (i :: lp :: us ++ rp :: vs) := by
  intro s ts rest fuel steps hts hflag hfuel hsteps hnext
  obtain ⟨rfl, rfl⟩ : i = s.current ∧ (lp :: us ++ [rp]) ++ vs = ts := by simpa using hts
  simp only [List.length_append, List.length_cons, List.length_nil] at hfuel hsteps
  obtain ⟨steps, rfl⟩ : ∃ m, steps = m + 1 := ⟨steps - 1, by omega⟩
  refine Accepts.current (Accepts.bind (test_accepts hlp he hus hrp (by simp; omega)) ?_)
  rw [← List.append_nil vs]
  refine Accepts.bind (nextBlock_accepts hb hvs hflag (by simp; omega)) ?_
  exact Accepts.peekIsNot hnext Accepts.pure

/-- `if (e) b else c` -/
theorem takesBranch_else {f : Bool} {i lp rp el : Token} {e : Expr} {b c : Block}
    {us vs ws : List Token} (hlp : lp.kind = .lparen) (he : TakesExpr e us)
    (hus : Leads (· ∈ exprFirst) us) (hrp : rp.kind = .rparen) (hb : TakesBlock f b vs)
    (hvs : Leads (· = .lbrace) vs) (hel : el.kind = .elseWord) (hc : TakesBlock f c ws)
    (hws : Leads (· = .lbrace) ws) :
    TakesBranch f (.branch i e b (some (.block c))) (i :: lp :: us ++ rp :: vs ++ el :: ws) := by
  intro s ts rest fuel steps hts hflag hfuel hsteps _
  obtain ⟨lb, ws, rfl, hlb⟩ := hws.exists_cons
  obtain ⟨rfl, rfl⟩ : i = s.current ∧ (lp :: us ++ [rp]) ++ (vs ++ el :: lb :: ws) = ts := by
    simpa using hts
  simp only [List.length_append, List.length_cons, List.length_nil] at hfuel hsteps
  obtain ⟨steps, rfl⟩ : ∃ m, steps = m + 1 := ⟨steps - 1, by omega⟩
  refine Accepts.current (Accepts.bind (test_accepts hlp he hus hrp (by simp; omega)) ?_)
  refine Accepts.bind (nextBlock_accepts hb hvs hflag (by simp; omega)) ?_
  refine Accepts.peekIs hel (Accepts.advance (Accepts.peek ?_))
  rw [hlb]
  exact Accepts.advance (Accepts.map (f := fun c => Stmt.branch _ e b (some (.block c)))
    (hc rfl hflag (by omega)))

/-- `if (e) b else if …`; the branch behind the `else` is read by the same loop. -/
theorem takesBranch_chain {f : Bool} {i lp rp el : Token} {e : Expr} {b : Block} {st : Stmt}
    {us vs ws : List Token} (hlp : lp.kind = .lparen) (he : TakesExpr e us)
    (hus : Leads (· ∈ exprFirst) us) (hrp : rp.kind = .rparen) (hb : TakesBlock f b vs)
    (hvs : Leads (· = .lbrace) vs) (hel : el.kind = .elseWord) (hst : TakesBranch f st ws)
    (hws : Leads (· = .ifWord) ws) :
    TakesBranch f (.branch i e b (some st)) (i :: lp :: us ++ rp :: vs ++ el :: ws) := by
  intro s ts rest fuel steps hts hflag hfuel hsteps hnext
  obtain ⟨w, ws, rfl, hw⟩ := hws.exists_cons
  obtain ⟨rfl, rfl⟩ : i = s.current ∧ (lp :: us ++ [rp]) ++ (vs ++ el :: w :: ws) = ts := by
    simpa using hts
  simp only [List.length_append, List.length_cons, List.length_nil] at hfuel hsteps
  obtain ⟨steps, rfl⟩ : ∃ m, steps = m + 1 := ⟨steps - 1, by omega⟩
  refine Accepts.current (Accepts.bind (test_accepts hlp he hus hrp (by simp; omega)) ?_)
  refine Accepts.bind (nextBlock_accepts hb hvs hflag (by simp; omega)) ?_
  refine Accepts.peekIs hel (Accepts.advance (Accepts.peek ?_))
  rw [hw]
  exact Accepts.advance (Accepts.map (f := fun st => Stmt.branch _ e b (some st))
    (hst rfl hflag (by omega) (by omega) hnext))

theorem TakesBranch.statement {f : Bool} {st : Stmt} {ts : List Token} (h : TakesBranch f st ts)
    (hts : Leads (· = .ifWord) ts) : TakesStatement f st ts := by
  intro s us rest fuel heq hflag hfuel hnext
  obtain ⟨fuel, rfl⟩ : ∃ m, fuel = m + 1 := ⟨fuel - 1, by omega⟩
  have hk : s.current.kind = .ifWord := by rw [heq] at hts; exact hts
  refine Accepts.current ?_
  rw [hk]
  exact Accepts.map (h heq hflag (by omega) (by show _ ≤ fuel; omega) hnext)

/-! ## Loops -/

theorem exprStatement_accepts {s : State} {fuel : Nat} {rest us : List Token} {sc : Token}
    {e : Expr} (he : TakesExpr e (s.current :: us)) (hsc : sc.kind = .semicolon)
    (hfuel : 2 * (us.length + rest.length) + 5 ≤ fuel) :
    Accepts s (partsAt fuel).exprStatement (.expr s.current e) (us ++ [sc]) rest := by
  refine Accepts.current (Accepts.bind (he rfl (by simp; omega)
    (by show sc.kind.strength = _; rw [hsc]; rfl)) ?_)
  exact Accepts.expect hsc Accepts.pure

/-- The semicolon alone. -/
theorem takesInit_none {sc : Token} (hsc : sc.kind = .semicolon) : TakesInit none [sc] := by
  intro s us rest fuel hts _
  cases hts
  refine Accepts.current ?_
  rw [hsc]
  exact Accepts.pure

theorem TakesVar.init {st : Stmt} {ts : List Token} (h : TakesVar st ts)
    (hts : Leads (· = .varWord) ts) : TakesInit (some st) ts := by
  intro s us rest fuel heq hfuel
  have hk : s.current.kind = .varWord := by rw [heq] at hts; exact hts
  refine Accepts.current ?_
  rw [hk]
  exact Accepts.map (h heq hfuel)

/-- An expression begins with no token that would be taken for another first part. -/
theorem takesInit_expr {t sc : Token} {e : Expr} {us : List Token} (he : TakesExpr e (t :: us))
    (ht : t.kind ∈ exprFirst) (hsc : sc.kind = .semicolon) :
    TakesInit (some (.expr t e)) (t :: us ++ [sc]) := by
  intro s ts rest fuel hts hfuel
  obtain ⟨rfl, rfl⟩ : t = s.current ∧ us ++ [sc] = ts := by simpa using hts
  simp only [List.length_append, List.length_cons, List.length_nil] at hfuel
  refine Accepts.current ?_
  -- neither a semicolon nor a `var` begins an expression
  split
  · rename_i hk
    rw [hk] at ht
    exact absurd ht (by decide)
  · rename_i hk
    rw [hk] at ht
    exact absurd ht (by decide)
  · exact Accepts.map (exprStatement_accepts he hsc (by omega))

/-- The second part of a `for` loop, with its semicolon. -/
theorem forTest_accepts {s : State} {fuel : Nat} {rest us : List Token} {sc : Token}
    {e : Option Expr} (he : TakesOptional e us) (hsc : sc.kind = .semicolon)
    (hfuel : 2 * (us.length + rest.length) + 3 ≤ fuel) :
    Accepts s (partsAt fuel).forTest e (us ++ [sc]) rest := by
  cases e with
  | none =>
    cases he
    exact Accepts.peekIs hsc (Accepts.advance Accepts.pure)
  | some e =>
    obtain ⟨he, hus⟩ := he
    refine Accepts.peekIsNot (((hus.ne_of_mem (by decide)).append _).append _) ?_
    refine Accepts.bind (nextExpr_accepts he hus (by simp; omega)
      (by show sc.kind.strength = _; rw [hsc]; rfl)) ?_
    exact Accepts.expect hsc Accepts.pure

/-- The third part of a `for` loop, in front of the closing parenthesis. -/
theorem forUpdate_accepts {s : State} {fuel : Nat} {rest us : List Token} {e : Option Expr}
    (he : TakesOptional e us) (hnext : Leads (· = .rparen) rest)
    (hfuel : 2 * (us.length + rest.length) + 1 ≤ fuel) :
    Accepts s (partsAt fuel).forUpdate e us rest := by
  cases e with
  | none =>
    cases he
    exact Accepts.peekIs hnext Accepts.pure
  | some e =>
    obtain ⟨he, hus⟩ := he
    refine Accepts.peekIsNot ((hus.ne_of_mem (by decide)).append _) ?_
    exact Accepts.map (nextExpr_accepts he hus hfuel (hnext.mono fun _ hk => by rw [hk]; rfl))

/-- `for (i e; u) b`; the first part brings its semicolon along. -/
theorem takesStatement_for {f : Bool} {w lp sc rp : Token} {i : Option Stmt} {e u : Option Expr}
    {b : Block} {us vs ws xs : List Token} (hw : w.kind = .forWord) (hlp : lp.kind = .lparen)
    (hi : TakesInit i us) (hus : us ≠ []) (he : TakesOptional e vs) (hsc : sc.kind = .semicolon)
    (hu : TakesOptional u ws) (hrp : rp.kind = .rparen) (hb : TakesBlock f b xs)
    (hxs : Leads (· = .lbrace) xs) :
    TakesStatement f (.forLoop w i e u b) (w :: lp :: us ++ vs ++ sc :: ws ++ rp :: xs) := by
  intro s ts rest fuel hts hflag hfuel _
  obtain ⟨t, us, rfl⟩ := List.exists_cons_of_ne_nil hus
  obtain ⟨rfl, rfl⟩ : w = s.current ∧
      lp :: t :: (us ++ ((vs ++ [sc]) ++ (ws ++ rp :: xs))) = ts := by simpa using hts
  simp only [List.length_append, List.length_cons, List.length_nil] at hfuel
  obtain ⟨fuel, rfl⟩ : ∃ m, fuel = m + 1 := ⟨fuel - 1, by omega⟩
  refine Accepts.current ?_
  rw [hw]
  refine Accepts.map (Accepts.current (Accepts.expect hlp (Accepts.advance ?_)))
  refine Accepts.bind (hi rfl (by simp; omega)) ?_
  refine Accepts.bind (forTest_accepts he hsc (by simp; omega)) ?_
  refine Accepts.bind (forUpdate_accepts hu hrp (by simp; omega)) ?_
  exact Accepts.expect hrp (Accepts.map (nextBlock_accepts hb hxs hflag (by omega)))

theorem takesStatement_while {f : Bool} {w lp rp : Token} {e : Expr} {b : Block} {us vs : List Token}
    (hw : w.kind = .whileWord) (hlp : lp.kind = .lparen) (he : TakesExpr e us)
    (hus : Leads (· ∈ exprFirst) us) (hrp : rp.kind = .rparen) (hb : TakesBlock f b vs)
    (hvs : Leads (· = .lbrace) vs) :
    TakesStatement f (.whileLoop w e b) (w :: lp :: us ++ rp :: vs) := by
  intro s ts rest fuel hts hflag hfuel _
  obtain ⟨rfl, rfl⟩ : w = s.current ∧ (lp :: us ++ [rp]) ++ vs = ts := by simpa using hts
  simp only [List.length_append, List.length_cons, List.length_nil] at hfuel
  obtain ⟨fuel, rfl⟩ : ∃ m, fuel = m + 1 := ⟨fuel - 1, by omega⟩
  refine Accepts.current ?_
  rw [hw]
  refine Accepts.map (Accepts.current ?_)
  refine Accepts.bind (test_accepts hlp he hus hrp (by simp; omega)) ?_
  exact Accepts.map (nextBlock_accepts hb hvs hflag (by omega))

/-- `do b while (e);` -/
theorem takesStatement_do {f : Bool} {d w lp rp sc : Token} {e : Expr} {b : Block} {us vs : List Token}
    (hd : d.kind = .doWord) (hb : TakesBlock f b us) (hus : Leads (· = .lbrace) us)
    (hw : w.kind = .whileWord) (hlp : lp.kind = .lparen) (he : TakesExpr e vs)
    (hvs : Leads (· ∈ exprFirst) vs) (hrp : rp.kind = .rparen) (hsc : sc.kind = .semicolon) :
    TakesStatement f (.doLoop d b e) (d :: us ++ w :: lp :: vs ++ [rp, sc]) := by
  intro s ts rest fuel hts hflag hfuel _
  obtain ⟨rfl, rfl⟩ : d = s.current ∧ us ++ w :: ((lp :: vs ++ [rp]) ++ [sc]) = ts := by
    simpa using hts
  simp only [List.length_append, List.length_cons, List.length_nil] at hfuel
  obtain ⟨fuel, rfl⟩ : ∃ m, fuel = m + 1 := ⟨fuel - 1, by omega⟩
  refine Accepts.current ?_
  rw [hd]
  refine Accepts.map (Accepts.current ?_)
  refine Accepts.bind (nextBlock_accepts hb hus hflag (by simp; omega)) (Accepts.expect hw ?_)
  refine Accepts.bind (test_accepts hlp he hvs hrp (by simp; omega)) ?_
  exact Accepts.expect hsc Accepts.pure

/-! ## Other statements -/

/-- `fn f(…): int b`; with a name behind the `fn` this is a declaration. -/
theorem takesStatement_function {f : Bool} {fn n : Token} {t : FunctionTail} {us : List Token}
    (hfn : fn.kind = .fnWord) (hn : n.kind = .ident) (ht : TakesTail fn t us) :
    TakesStatement f (.function fn ⟨n, n.literal⟩ t.parameters t.returns t.body) (fn :: n :: us) := by
  intro s ts rest fuel hts hflag hfuel _
  cases hts
  simp only [List.length_cons] at hfuel
  obtain ⟨fuel, rfl⟩ : ∃ m, fuel = m + 1 := ⟨fuel - 1, by omega⟩
  refine Accepts.current ?_
  rw [hfn]
  refine Accepts.peekIs hn (Accepts.map (Accepts.current (Accepts.advance (Accepts.current ?_))))
  exact Accepts.map
    (f := fun t : FunctionTail => Stmt.function s.current ⟨n, n.literal⟩ t.parameters t.returns t.body)
    (ht (by omega))

/-- Only inside functions. -/
theorem takesStatement_return {r sc : Token} {e : Option Expr} {us : List Token}
    (hr : r.kind = .returnWord) (he : TakesOptional e us) (hsc : sc.kind = .semicolon) :
    TakesStatement true (.ret r e) (r :: us ++ [sc]) := by
  intro s ts rest fuel hts hflag hfuel _
  obtain ⟨rfl, rfl⟩ : r = s.current ∧ us ++ [sc] = ts := by simpa using hts
  simp only [List.length_append, List.length_cons, List.length_nil] at hfuel
  obtain ⟨fuel, rfl⟩ : ∃ m, fuel = m + 1 := ⟨fuel - 1, by omega⟩
  refine Accepts.current ?_
  rw [hr]
  refine Accepts.map (Accepts.current (Accepts.get ?_))
  rw [if_neg (fun h => h hflag)]
  cases e with
  | none =>
    cases he
    exact Accepts.peekIs hsc (Accepts.advance Accepts.pure)
  | some e =>
    obtain ⟨he, hus⟩ := he
    refine Accepts.peekIsNot (((hus.ne_of_mem (by decide)).append _).append _) ?_
    refine Accepts.bind (nextExpr_accepts he hus (by simp; omega)
      (by show sc.kind.strength = _; rw [hsc]; rfl)) ?_
    exact Accepts.expect hsc Accepts.pure

theorem takesStatement_display {f : Bool} {d lp rp sc : Token} {es : List Expr} {us : List Token}
    {R : Phrase → List Token → Prop} (hd : d.kind = .displayWord) (hlp : lp.kind = .lparen)
    (hes : Separated R (es.map .expr) us)
    (hitem : ∀ e ts, R (.expr e) ts → Leads (· ∈ exprFirst) ts ∧ TakesExpr e ts)
    (hrp : rp.kind = .rparen) (hsc : sc.kind = .semicolon) :
    TakesStatement f (.display d es) (d :: lp :: us ++ [rp, sc]) := by
  intro s ts rest fuel hts hflag hfuel _
  obtain ⟨rfl, rfl⟩ : d = s.current ∧ lp :: ((us ++ [rp]) ++ [sc]) = ts := by simpa using hts
  simp only [List.length_append, List.length_cons, List.length_nil] at hfuel
  obtain ⟨fuel, rfl⟩ : ∃ m, fuel = m + 1 := ⟨fuel - 1, by omega⟩
  refine Accepts.current ?_
  rw [hd]
  refine Accepts.map (Accepts.current (Accepts.expect hlp ?_))
  refine Accepts.bind (arguments_accepts hes hitem hrp (by simp; omega)) ?_
  exact Accepts.expect hsc Accepts.pure

theorem TakesBlock.statement {f : Bool} {b : Block} {ts : List Token} (h : TakesBlock f b ts)
    (hts : Leads (· = .lbrace) ts) : TakesStatement f (.block b) ts := by
  intro s us rest fuel heq hflag hfuel _
  obtain ⟨fuel, rfl⟩ : ∃ m, fuel = m + 1 := ⟨fuel - 1, by omega⟩
  have hk : s.current.kind = .lbrace := by rw [heq] at hts; exact hts
  refine Accepts.current ?_
  rw [hk]
  exact Accepts.map (f := fun b => some (Stmt.block b)) (h heq hflag (by omega))

/-- An expression that begins with `fn` goes on with a parenthesis, and so is no declaration. -/
theorem takesStatement_expr {f : Bool} {t sc : Token} {e : Expr} {us : List Token}
    (he : TakesExpr e (t :: us)) (hbegins : ExprBegins (t :: us)) (hsc : sc.kind = .semicolon) :
    TakesStatement f (.expr t e) (t :: us ++ [sc]) := by
  intro s ts rest fuel hts hflag hfuel _
  obtain ⟨rfl, rfl⟩ : t = s.current ∧ us ++ [sc] = ts := by simpa using hts
  simp only [List.length_append, List.length_cons, List.length_nil] at hfuel
  obtain ⟨fuel, rfl⟩ : ∃ m, fuel = m + 1 := ⟨fuel - 1, by omega⟩
  have hexpr : Accepts s (do return some (← (partsAt fuel).exprStatement))
      (some (.expr s.current e)) (us ++ [sc]) rest :=
    Accepts.map (exprStatement_accepts he hsc (by omega))
  have hk : s.current.kind ∈ exprFirst := hbegins.1
  refine Accepts.current ?_
  -- of the tokens that begin an expression only `fn` begins another statement too
  by_cases hfn : s.current.kind = .fnWord
  · have hlp : Leads (· = .lparen) us := hbegins.2 hfn
    rw [hfn]
    refine Accepts.peekIsNot (Leads.append (Leads.append (hlp.mono ?_) _) _) hexpr
    rintro _ rfl
    decide
  · simp only [exprFirst, List.mem_cons, List.not_mem_nil, or_false] at hk
    rcases hk with hk | hk | hk | hk | hk | hk | hk | hk | hk | hk | hk
    case neg.inr.inr.inr.inr.inr.inr.inr.inr.inr.inr => exact absurd hk hfn
    all_goals
      rw [hk]
      exact hexpr

/-! ## Lists of statements -/

/-- What the loops over the statements of a block and of a program have in common: they end on a token of
    the kind `k`, and otherwise put one statement in front of the others. -/
structure LoopsUntil (k : TokenKind) (kept : Parse (Option Stmt)) (loop : Nat → Parse (List Stmt)) :
    Prop where
  stop {s : State} {steps : Nat} : s.current.kind = k → loop (steps + 1) s = .ok [] s
  turn {s : State} {steps : Nat} : s.current.kind ≠ .rbrace → s.current.kind ≠ .eof →
    loop (steps + 1) s = (kept >>= fun o => loop steps >>= fun ss => pure (o.toList ++ ss)) s

/-- One turn of the loop, from the ends of the statement and of the turns behind it. -/
theorem LoopsUntil.step {k : TokenKind} {kept : Parse (Option Stmt)} {loop : Nat → Parse (List Stmt)}
    (h : LoopsUntil k kept loop) {s s' s'' : State} {steps : Nat} {o : Option Stmt} {ss : List Stmt}
    (hbrace : s.current.kind ≠ .rbrace) (heof : s.current.kind ≠ .eof) (hkept : kept s = .ok o s')
    (hloop : loop steps s' = .ok ss s'') : loop (steps + 1) s = .ok (o.toList ++ ss) s'' := by
  rw [h.turn hbrace heof, run_bind hkept, run_bind hloop]
  rfl

theorem blockStatements_loops (statement : Parse (Option Stmt)) (line : Nat) :
    LoopsUntil .rbrace (keptStatement statement) (blockStatements statement line) where
  stop {s steps} h := by
    unfold blockStatements
    rw [run_bind (rfl : Parse.current s = .ok s.current s), h]
    rfl
  turn {s steps} hbrace heof := by
    rw [blockStatements, run_bind (rfl : Parse.current s = .ok s.current s)]
    refine congrFun ?_ s
    split
    · contradiction
    · contradiction
    · rfl

theorem programStatements_loops (statement : Parse (Option Stmt)) :
    LoopsUntil .eof (keptStatement statement) (programStatements statement) where
  stop {s steps} h := by
    unfold programStatements
    rw [run_bind (rfl : Parse.current s = .ok s.current s), if_pos h]
    rfl
  turn {s steps} _ heof := by
    rw [programStatements, run_bind (rfl : Parse.current s = .ok s.current s), if_neg heof]

/-- The statements up to a closing brace or the end of the source, for either loop. -/
def TakesStatements (inFunction : Bool) (ss : List Stmt) (ts : List Token) : Prop :=
  ∀ {s z rest fuel k loop steps}, LoopsUntil k (keptStatement (statement fuel)) loop →
    k = .rbrace ∨ k = .eof → s.current :: s.rest = ts ++ z :: rest → z.kind = k →
    s.inFunction = inFunction → 2 * s.rest.length + 4 ≤ fuel → s.rest.length < steps →
    loop steps s = .ok ss ⟨z, rest, s.diagnostics, inFunction⟩

/-- The loop keeps a statement and moves on to the token behind it. -/
theorem keptStatement_accepts {s : State} {f : Bool} {st : Stmt} {us rest : List Token} {z : Token}
    {fuel : Nat} (h : TakesStatement f st (s.current :: us)) (hrest : s.rest = us ++ z :: rest)
    (hz : z.kind ≠ .elseWord) (hflag : s.inFunction = f) (hfuel : 2 * s.rest.length + 4 ≤ fuel) :
    keptStatement (statement fuel) s = .ok (some st) ⟨z, rest, s.diagnostics, f⟩ := by
  have hrun : statement fuel s = .ok (some st) (s.past us (z :: rest)) := by
    refine h rfl hflag ?_ hz hrest
    rw [hrest] at hfuel
    simpa using hfuel
  show EStateM.bind (attempt (statement fuel)) _ s = _
  unfold EStateM.bind attempt
  rw [hrun, ← hflag]
  rfl

/-- A semicolon alone leaves no statement behind. -/
theorem keptStatement_empty {s : State} {f : Bool} {rest : List Token} {z : Token} {fuel : Nat}
    (h : s.current.kind = .semicolon) (hrest : s.rest = z :: rest) (hflag : s.inFunction = f) :
    keptStatement (statement (fuel + 1)) s = .ok none ⟨z, rest, s.diagnostics, f⟩ := by
  have hrun : statement (fuel + 1) s = .ok none s := by
    have haccepts : Accepts s (statement (fuel + 1)) none [] (z :: rest) := by
      refine Accepts.current ?_
      rw [h]
      exact Accepts.pure
    have hself : s.past [] (z :: rest) = s := by rw [← hrest]; rfl
    rw [haccepts hrest, hself]
  show EStateM.bind (attempt (statement (fuel + 1))) _ s = _
  unfold EStateM.bind attempt
  rw [hrun, ← hflag]
  obtain ⟨c, ts, ds, g⟩ := s
  cases hrest
  rfl

theorem takesStatements_nil {f : Bool} : TakesStatements f [] [] := by
  intro s z rest fuel k loop steps hloop _ htokens hz hflag _ hsteps
  obtain ⟨rfl, hrest⟩ := List.cons.inj htokens
  obtain ⟨steps, rfl⟩ : ∃ m, steps = m + 1 := ⟨steps - 1, by omega⟩
  rw [hloop.stop hz, ← hrest, ← hflag]

theorem takesStatements_empty {f : Bool} {sc : Token} {ss : List Stmt} {us : List Token}
    (hsc : sc.kind = .semicolon) (h : TakesStatements f ss us) : TakesStatements f ss (sc :: us) := by
  intro s z rest fuel k loop steps hloop hk htokens hz hflag hfuel hsteps
  obtain ⟨y, ys, hys⟩ : ∃ y ys, us ++ z :: rest = y :: ys :=
    List.exists_cons_of_ne_nil (by simp)
  rw [List.cons_append, hys] at htokens
  obtain ⟨rfl, hrest⟩ := List.cons.inj htokens
  simp only [hrest, List.length_cons] at hfuel hsteps
  obtain ⟨steps, rfl⟩ : ∃ m, steps = m + 1 := ⟨steps - 1, by omega⟩
  obtain ⟨fuel, rfl⟩ : ∃ m, fuel = m + 1 := ⟨fuel - 1, by omega⟩
  refine hloop.step (by rw [hsc]; decide) (by rw [hsc]; decide) (keptStatement_empty hsc hrest hflag) ?_
  exact h hloop hk hys.symm hz rfl (by show 2 * ys.length + 4 ≤ _; omega) (by show ys.length < _; omega)

/-- What follows a statement begins with no `else`: another statement, a semicolon or the end. -/
theorem takesStatements_cons {f : Bool} {st : Stmt} {ss : List Stmt} {us vs : List Token}
    (hst : TakesStatement f st us) (hus : Leads (· ∈ keywordFirst ++ exprFirst) us)
    (hss : TakesStatements f ss vs)
    (hvs : vs = [] ∨ Leads (· ≠ .elseWord) vs) : TakesStatements f (st :: ss) (us ++ vs) := by
  intro s z rest fuel k loop steps hloop hk htokens hz hflag hfuel hsteps
  -- behind the first statement comes the second, or the token that ends the loop
  have hnext : Leads (· ≠ .elseWord) (vs ++ z :: rest) := by
    rcases hvs with rfl | hvs
    · show z.kind ≠ _
      rcases hk with rfl | rfl <;> (rw [hz]; decide)
    · exact hvs.append _
  obtain ⟨u, us, rfl, hu⟩ := hus.exists_cons
  obtain ⟨y, ys, hys, hy⟩ := hnext.exists_cons
  rw [List.append_assoc, hys, List.cons_append] at htokens
  obtain ⟨rfl, hrest⟩ := List.cons.inj htokens
  have hlen : s.rest.length = us.length + ys.length + 1 := by simp [hrest]; omega
  obtain ⟨steps, rfl⟩ : ∃ m, steps = m + 1 := ⟨steps - 1, by omega⟩
  have hloops : loop steps ⟨y, ys, s.diagnostics, f⟩ = .ok ss ⟨z, rest, s.diagnostics, f⟩ :=
    hss hloop hk hys.symm hz rfl (by show 2 * ys.length + 4 ≤ _; omega) (by show ys.length < _; omega)
  refine hloop.step ?_ ?_ (keptStatement_accepts hst hrest hy hflag hfuel) hloops
  · intro h
    rw [h] at hu
    exact absurd hu (by decide)
  · intro h
    rw [h] at hu
    exact absurd hu (by decide)

/-- The loop starts behind the opening brace and ends on the closing one. -/
theorem takesBlock {f : Bool} {lb rb : Token} {ss : List Stmt} {us : List Token}
    (h : TakesStatements f ss us) (hrb : rb.kind = .rbrace) :
    TakesBlock f (.mk lb ss) (lb :: us ++ [rb]) := by
  intro s ts rest fuel hts hflag hfuel
  obtain ⟨rfl, rfl⟩ : lb = s.current ∧ us ++ [rb] = ts := by simpa using hts
  simp only [List.length_append, List.length_cons, List.length_nil] at hfuel
  obtain ⟨fuel, rfl⟩ : ∃ m, fuel = m + 1 := ⟨fuel - 1, by omega⟩
  -- the loop starts on the first statement, or on the closing brace if there is none
  obtain ⟨y, ys, hys, hlast⟩ := exists_cons_getLastD us rb
  have hlen : us.length = ys.length := by simpa using congrArg List.length hys
  have hloops : blockStatements (statement fuel) s.current.line fuel
      ⟨y, ys ++ rest, s.diagnostics, f⟩ = .ok ss ⟨rb, rest, s.diagnostics, f⟩ := by
    refine h (blockStatements_loops (statement fuel) s.current.line) (Or.inl rfl) ?_ hrb rfl ?_ ?_
    · show y :: (ys ++ rest) = us ++ rb :: rest
      rw [← List.cons_append, ← hys, List.append_assoc]
      rfl
    · simp
      omega
    · simp
      omega
  rw [hys]
  refine Accepts.current (Accepts.advance (Accepts.map fun _ => ?_))
  unfold State.past
  rw [← hlast, ← hflag] at hloops
  exact hloops

/-! ## Phrases -/

/-- The routine for the category of a phrase takes the tokens; nothing is said of lists with commas. -/
def Takes : Phrase → List Token → Prop
  | .typeName t, us => TakesType t us
  | .declared d, us => TakesDeclared d us
  | .parameter p, us => TakesParameter p us
  | .commas _, _ => True
  | .tail fn f, us => TakesTail fn f us
  | .target n, us => TakesAtom (.name n) us
  | .atom e, us => TakesAtom e us
  | .applied e, us => TakesApplied e us
  | .tier k e, us => TakesTier k e us
  | .expr e, us => TakesExpr e us
  | .optional e, us => TakesOptional e us
  | .varDecl s, us => TakesVar s us
  | .init i, us => TakesInit i us
  | .branch f s, us => TakesBranch f s us
  | .statement f s, us => TakesStatement f s us
  | .statements f ss, us => TakesStatements f ss us
  | .block f b, us => TakesBlock f b us

/-- What the induction carries for a phrase: lists are kept apart until an item routine is known. -/
def Settled : Phrase → List Token → Prop
  | .commas ps, us => Separated (fun p ts => Spells p ts ∧ Takes p ts) ps us
  | p, us => Takes p us

theorem Settled.takes {p : Phrase} {us : List Token} (h : Settled p us) : Takes p us := by
  cases p with
  | commas ps => trivial
  | _ => exact h

end ScriptLang.Parse

namespace ScriptLang.Spells

open Parse

/-- Each rule of the grammar is met by the lemma about the routine of its category. -/
theorem settled {ph : Phrase} {us : List Token} (h : Spells ph us) : Settled ph us := by
  induction h with
  -- types and parameters
  | typeWord ht => exact takesType_word ht
  | functionType hfn hlp _ hrp harrow _ hps hr =>
    exact takesType_function hfn hlp hps (fun _ _ hp => ⟨hp.1.typeName_leads, hp.2⟩) hrp harrow hr
  | undeclared => exact takesDeclared_none
  | declared hc _ hd => exact takesDeclared_some hc hd
  | parameter hn hc _ hd => exact takesParameter hn hc hd
  | none => exact Separated.none
  | one h ih => exact Separated.one ⟨h, ih.takes⟩
  | more h hc _ ih ih' => exact Separated.more ⟨h, ih.takes⟩ hc ih'
  | tail hlp _ hrp _ hb ihps ihd ihb =>
    exact takesTail hlp ihps (fun _ _ hp => ⟨hp.1.parameter_leads, hp.2⟩) hrp ihd ihb hb.block_leads
  -- expressions, from the tightest tier to the loosest
  | target ht => exact takesAtom_name ht
  | parenTarget hlp h hrp ih => exact takesAtom_paren hlp (TakesAtom.expr ih) h.target_leads hrp
  | name ht => exact takesAtom_name ht
  | int ht hn => exact takesAtom_int ht hn
  | float ht hx => exact takesAtom_float ht hx
  | str ht => exact takesAtom_str ht
  | bool ht => exact takesAtom_bool ht
  | paren hlp h hrp ih => exact takesAtom_paren hlp ih h.expr_leads hrp
  | function hfn _ ih => exact takesAtom_function hfn ih
  | atom _ ih => exact TakesAtom.applied ih
  | after h ht ih => exact takesApplied_after ih h.applied_leads ht
  | call h hlp _ hrp ih ihes =>
    exact takesApplied_call ih h.applied_leads hlp ihes (fun _ _ he => ⟨he.1.expr_leads, he.2⟩) hrp
  | applied _ ih => exact TakesApplied.tier ih
  | before ht h ih => exact takesTier_before ht ih h.tier_leads
  | tighter _ _ ih => exact TakesTier.looser ih
  | binary hl ht hr ihl ihr => exact takesTier_binary ihl hl.tier_leads ht ihr hr.tier_leads
  | tier _ ih => exact TakesTier.expr ih
  | choice he hq ha hc hb ihe iha ihb =>
    exact takesExpr_choice ihe he.tier_leads hq iha ha.expr_leads hc ihb hb.expr_leads
  | assign hn ht he ihn ihe => exact takesExpr_assign ihn hn.target_leads ht ihe he.expr_leads
  | nothing => exact rfl
  | something h ih => exact ⟨ih, h.expr_leads⟩
  -- statements
  | varValue _ hn _ heq he hkept hsc ihd ihe =>
    exact takesVar_value hn ihd heq ihe he.expr_leads hkept hsc
  | varType _ hn _ hsc ih => exact takesVar_type hn ih hsc
  | var h ih => exact TakesVar.statement ih h.varDecl_leads
  | const hc hn _ heq he hkept hsc ihd ihe =>
    exact takesStatement_const hc hn ihd heq ihe he.expr_leads hkept hsc
  | branchOnly _ hlp he hrp hb ihe ihb =>
    exact takesBranch_only hlp ihe he.expr_leads hrp ihb hb.block_leads
  | branchElse _ hlp he hrp hb hel hc ihe ihb ihc =>
    exact takesBranch_else hlp ihe he.expr_leads hrp ihb hb.block_leads hel ihc hc.block_leads
  | branchChain _ hlp he hrp hb hel hs ihe ihb ihs =>
    exact takesBranch_chain hlp ihe he.expr_leads hrp ihb hb.block_leads hel ihs hs.branch_leads
  | branch h ih => exact TakesBranch.statement ih h.branch_leads
  | noInit hsc => exact takesInit_none hsc
  | varInit h ih => exact TakesVar.init ih h.varDecl_leads
  | exprInit h hsc ih => exact takesInit_expr ih h.expr_leads hsc
  | forLoop hw hlp hi _ hsc _ hrp hb ihi ihe ihu ihb =>
    exact takesStatement_for hw hlp ihi hi.init_ne_nil ihe hsc ihu hrp ihb hb.block_leads
  | whileLoop hw hlp he hrp hb ihe ihb =>
    exact takesStatement_while hw hlp ihe he.expr_leads hrp ihb hb.block_leads
  | doLoop hd hb hw hlp he hrp hsc ihb ihe =>
    exact takesStatement_do hd ihb hb.block_leads hw hlp ihe he.expr_leads hrp hsc
  | functionNamed hfn hn _ ih => exact takesStatement_function hfn hn ih
  | ret hr _ hsc ih => exact takesStatement_return hr ih hsc
  | display hd hlp _ hrp hsc ih =>
    exact takesStatement_display hd hlp ih (fun _ _ he => ⟨he.1.expr_leads, he.2⟩) hrp hsc
  | nested h ih => exact TakesBlock.statement ih h.block_leads
  | exprOnly h hsc ih => exact takesStatement_expr ih h.begins hsc
  -- rows of statements
  | noStatements => exact takesStatements_nil
  | empty hsc _ ih => exact takesStatements_empty hsc ih
  | cons hs hss ihs ihss =>
    exact takesStatements_cons ihs hs.statement_leads ihss hss.statements_leads
  | block _ _ hrb ih => exact takesBlock ih hrb

end ScriptLang.Spells

namespace ScriptLang.Parse

/-- A program that is spelled by the tokens in front of the end of the input is read without a
    diagnostic. -/
theorem program_accepts {s : State} {fuel : Nat} {ss : List Stmt} {ts rest : List Token} {z : Token}
    (h : Spells (.statements s.inFunction ss) ts) (htokens : s.current :: s.rest = ts ++ z :: rest)
    (hz : z.kind = .eof) (hfuel : 2 * s.rest.length + 4 ≤ fuel) :
    program fuel s = .ok ⟨s.current, ss⟩ ⟨z, rest, s.diagnostics, s.inFunction⟩ := by
  have htakes : TakesStatements s.inFunction ss ts := h.settled
  have hloops : programStatements (statement fuel) fuel s =
      .ok ss ⟨z, rest, s.diagnostics, s.inFunction⟩ :=
    htakes (programStatements_loops _) (Or.inr rfl) htokens hz rfl hfuel (by omega)
  unfold program
  rw [run_bind (rfl : Parse.current s = .ok s.current s), run_bind hloops]
  rfl

end ScriptLang.Parse
