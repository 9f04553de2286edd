import ScriptLang.Proofs.Print.Expression

/-!
  Printed statements are spelled again.

  A declaration prints with the type that it keeps, so what was inferred is declared when the text is
  read again and has to agree with the literal, as it does.
-/

namespace ScriptLang

open Scan

def WritesStmt (ph : Stmt → Phrase) (s : Stmt) : Prop :=
  Writes s.text fun ts => ∃ s', Spells (ph s') ts ∧ s'.bare = s.bare

theorem WritesStmt.mono {ph ph' : Stmt → Phrase} {s : Stmt} (h : WritesStmt ph s)
    (himp : ∀ s ts, Spells (ph s) ts → Spells (ph' s) ts) : WritesStmt ph' s := by
  intro p rest hrest
  refine (h p rest hrest).mono fun ts hts => ?_
  obtain ⟨s', hspell, hbare⟩ := hts
  exact ⟨s', himp s' ts hspell, hbare⟩

/-! ## Kept types -/

theorem literalType?_bare_eq {e e' : Expr} (h : e'.bare = e.bare) :
    e'.literalType?.map TypeName.bare = e.literalType?.map TypeName.bare := by
  rw [← e'.literalType?_bare, h, e.literalType?_bare]

namespace KeepsType

variable {d kept kept' : Option TypeName} {e e' : Expr}

theorem typeText (h : KeepsType d e kept) (hd : ∀ t ∈ d, TypeText t.name)
    (he : ∀ i ∈ e.literalType?, TypeText i.name) : ∀ t ∈ kept, TypeText t.name := by
  cases h with
  | inferred => exact he
  | declared _ => exact hd

/-- The kept type is the type of the literal, if the value is one. -/
theorem agrees (h : KeepsType d e kept) : ∀ i ∈ e.literalType?, ∃ k ∈ kept, i.name = k.name := by
  intro i hi
  cases h with
  | inferred => exact ⟨i, hi, rfl⟩
  | declared hagrees => exact ⟨_, rfl, hagrees i hi⟩

/-- Declaring the kept type is allowed and keeps it. -/
theorem declared_again (h : KeepsType d e kept) (he : e'.bare = e.bare)
    (hk : kept'.map TypeName.bare = kept.map TypeName.bare) : KeepsType kept' e' kept' := by
  have hliteral := literalType?_bare_eq he
  -- Types agree by name, and a type keeps its name without its token.
  have hagrees : ∀ i ∈ e'.literalType?, ∃ k ∈ kept', i.name = k.name := by
    intro i hi
    have hi' : TypeName.bare i ∈ e.literalType?.map TypeName.bare := by
      rw [← hliteral]
      exact Option.mem_map_of_mem _ hi
    obtain ⟨j, hj, hij⟩ := Option.map_eq_some_iff.1 hi'
    obtain ⟨k, hk', hname⟩ := h.agrees j hj
    have hk'' : TypeName.bare k ∈ kept'.map TypeName.bare := by
      rw [hk]
      exact Option.mem_map_of_mem _ hk'
    obtain ⟨l, hl, hlk⟩ := Option.map_eq_some_iff.1 hk''
    refine ⟨l, hl, ?_⟩
    have h1 : j.name = i.name := congrArg (·.name) hij
    have h2 : l.name = k.name := congrArg (·.name) hlk
    rw [← h1, hname, h2]
  cases kept' with
  | some k =>
    refine KeepsType.declared fun i hi => ?_
    obtain ⟨l, hl, hname⟩ := hagrees i hi
    cases hl
    exact hname
  | none =>
    have hnone : e'.literalType? = none := by
      refine Option.eq_none_iff_forall_not_mem.2 fun i hi => ?_
      obtain ⟨k, hk, -⟩ := hagrees i hi
      exact nomatch hk
    have hinferred : KeepsType none e' e'.literalType? := KeepsType.inferred
    rwa [hnone] at hinferred

end KeepsType

/-! ## Declarations -/

/-- The part of a declaration behind its first word. -/
theorem Scan.Emits.binding {name : Name} {d kept : Option TypeName} {e : Expr} {Q : List Token → Prop}
    {p : Position} {cs rest : List Char} (hname : IsName name.text) (hkept : KeepsType d e kept)
    (hd : ∀ t ∈ d, TypeText t.name) (he : WritesExpr e)
    (h : ∀ n us eq vs sc kept' e' p', n.kind = .ident → n.literal = name.text →
      Spells (.declared kept') us → eq.kind = .assign → Spells (.expr e') vs →
      KeepsType kept' e' kept' → sc.kind = .semicolon →
      kept'.map TypeName.bare = kept.map TypeName.bare → e'.bare = e.bare →
      Emits p' cs rest fun ts => Q (n :: (us ++ eq :: (vs ++ sc :: ts)))) :
    Emits p (name.text.toList ++ ((declaredText kept).toList ++ ' ' :: ("=".toList ++ ' ' ::
      (e.text.toList ++ ';' :: cs)))) rest Q := by
  refine Emits.name hname (loose_declaredText (loose_of_mem (by decide))) fun n p' hn hlit => ?_
  refine (writes_declared (hkept.typeText hd he.typed)).emits (loose_of_mem (by decide))
    fun us p' hus => ?_
  obtain ⟨kept', hspell, hbare⟩ := hus
  refine Emits.blank (by decide) fun p' => ?_
  refine Emits.operator (k := .assign) rfl (plain_of_mem (by decide)) fun eq p' heq _ => ?_
  refine Emits.blank (by decide) fun p' => ?_
  refine Emits.expr he (loose_of_mem (by decide)) fun vs e' p' hvalue hbare' => ?_
  refine Emits.mark (k := .semicolon) (by decide) fun sc p' hsc => ?_
  exact h n us eq vs sc kept' e' p' hn hlit hspell heq (Spells.expr_of_applied hvalue)
    (hkept.declared_again hbare' hbare) hsc hbare hbare'

theorem writesStmt_var {t : Token} {name : Name} {d kept : Option TypeName} {e : Expr}
    (hname : IsName name.text) (hkept : KeepsType d e kept) (hd : ∀ t ∈ d, TypeText t.name)
    (he : WritesExpr e) : WritesStmt .varDecl (.var t name kept (some e)) := by
  intro p rest _
  have htext : (Stmt.text (.var t name kept (some e))).toList ++ rest = "var".toList ++ ' ' ::
      (name.text.toList ++ ((declaredText kept).toList ++ ' ' :: ("=".toList ++ ' ' ::
        (e.text.toList ++ ';' :: rest)))) := by
    simp [Stmt.text]
  rw [htext]
  refine Emits.keyword (k := .varWord) (by decide) (loose_of_mem (by decide)) fun v p' hv _ => ?_
  refine Emits.blank (by decide) fun p' => ?_
  refine Emits.binding hname hkept hd he ?_
  intro n us eq vs sc kept' e' p' hn hlit hus heq hvs hkeeps hsc hbare hbare'
  have hspell := Spells.varValue hv hn hus heq hvs hkeeps hsc
  exact Emits.done ⟨_, by simpa using hspell, by simp [Stmt.bare, bareExpr?, Name.bare, hlit, hbare, hbare']⟩

theorem writesStmt_varType {t : Token} {name : Name} {d : TypeName} (hname : IsName name.text)
    (hd : TypeText d.name) : WritesStmt .varDecl (.var t name (some d) none) := by
  intro p rest _
  have htext : (Stmt.text (.var t name (some d) none)).toList ++ rest = "var".toList ++ ' ' ::
      (name.text.toList ++ ':' :: ' ' :: (d.name.toList ++ ';' :: rest)) := by
    simp [Stmt.text, declaredText]
  rw [htext]
  refine Emits.keyword (k := .varWord) (by decide) (loose_of_mem (by decide)) fun v p' hv _ => ?_
  refine Emits.blank (by decide) fun p' => ?_
  refine Emits.name hname (loose_of_mem (by decide)) fun n p' hn hlit => ?_
  refine Emits.mark (k := .colon) (by decide) fun c p' hc => ?_
  refine Emits.blank (by decide) fun p' => ?_
  refine hd.writes.emits (loose_of_mem (by decide)) fun us p' hus => ?_
  obtain ⟨d', hd', hname'⟩ := hus
  refine Emits.mark (k := .semicolon) (by decide) fun sc p' hsc => ?_
  have hspell := Spells.varType hv hn (Spells.declared hc hd') hsc
  exact Emits.done ⟨_, by simpa using hspell, by simp [Stmt.bare, bareExpr?, Name.bare, TypeName.bare, hlit, hname']⟩

theorem writesStmt_const {f : Bool} {t : Token} {name : Name} {d kept : Option TypeName} {e : Expr}
    (hname : IsName name.text) (hkept : KeepsType d e kept) (hd : ∀ t ∈ d, TypeText t.name)
    (he : WritesExpr e) : WritesStmt (.statement f) (.const t name kept e) := by
  intro p rest _
  have htext : (Stmt.text (.const t name kept e)).toList ++ rest = "const".toList ++ ' ' ::
      (name.text.toList ++ ((declaredText kept).toList ++ ' ' :: ("=".toList ++ ' ' ::
        (e.text.toList ++ ';' :: rest)))) := by
    simp [Stmt.text]
  rw [htext]
  refine Emits.keyword (k := .constWord) (by decide) (loose_of_mem (by decide)) fun c p' hc _ => ?_
  refine Emits.blank (by decide) fun p' => ?_
  refine Emits.binding hname hkept hd he ?_
  intro n us eq vs sc kept' e' p' hn hlit hus heq hvs hkeeps hsc hbare hbare'
  have hspell := Spells.const (f := f) hc hn hus heq hvs hkeeps hsc
  exact Emits.done ⟨_, by simpa using hspell, by simp [Stmt.bare, Name.bare, hlit, hbare, hbare']⟩

/-! ## Lists of statements and blocks -/

theorem writes_statements {f : Bool} {sep : String} {c : Char} (hsep : sep.toList = [c])
    (hc : c ∈ [' ', '\n']) (ss : List Stmt) (h : ∀ s ∈ ss, WritesStmt (.statement f) s) :
    Writes (sep.intercalate (stmtTexts ss)) fun ts =>
      ∃ ss', Spells (.statements f ss') ts ∧ bareStmts ss' = bareStmts ss := by
  have hblank : isBlank c = true := by
    have hall : ∀ c ∈ [' ', '\n'], isBlank c = true := List.all_iff_forall_prop.1 (by decide)
    exact hall c hc
  have hloose : ∀ cs, Loose (c :: cs) := by
    have hall : ∀ c ∈ [' ', '\n'], c ∈ [' ', '\n', '(', ')', ',', ';', ':', '+', '-'] :=
      List.all_iff_forall_prop.1 (by decide)
    exact fun cs => loose_of_mem (hall c hc)
  induction ss with
  | nil => exact fun p rest _ => Emits.done ⟨[], Spells.noStatements, rfl⟩
  | cons s ss ih =>
    intro p rest hrest
    have hfirst := h s List.mem_cons_self
    have hothers := ih fun s hs => h s (List.mem_cons_of_mem _ hs)
    -- a separator stands only in front of a further statement
    cases ss with
    | nil =>
      refine (hfirst p rest hrest).mono fun us hus => ?_
      obtain ⟨s', hspell, hbare⟩ := hus
      have hcons := Spells.cons hspell Spells.noStatements
      exact ⟨[s'], by simpa using hcons, by simp [bareStmts, hbare]⟩
    | cons s₂ ss =>
      have htext : (sep.intercalate (stmtTexts (s :: s₂ :: ss))).toList ++ rest =
          s.text.toList ++ c :: ((sep.intercalate (stmtTexts (s₂ :: ss))).toList ++ rest) := by
        simp [stmtTexts, String.intercalate_cons_cons, hsep]
      rw [htext]
      refine hfirst.emits (hloose _) fun us p' hus => ?_
      obtain ⟨s', hspell, hbare⟩ := hus
      refine Emits.blank hblank fun p' => ?_
      refine (hothers p' rest hrest).mono fun vs hvs => ?_
      obtain ⟨ss', hspells, hbares⟩ := hvs
      exact ⟨s' :: ss', Spells.cons hspell hspells, by rw [bareStmts, bareStmts, hbare, hbares]⟩

theorem writesBlock {f : Bool} {t : Token} {ss : List Stmt}
    (h : ∀ s ∈ ss, WritesStmt (.statement f) s) : WritesBlock f (.mk t ss) := by
  intro p rest _
  cases ss with
  | nil =>
    have htext : (Block.text (.mk t [])).toList ++ rest = '\x7b' :: ' ' :: '\x7d' :: rest := by
      simp [Block.text]
    rw [htext]
    refine Emits.mark (k := .lbrace) (by decide) fun lb p' hlb => ?_
    refine Emits.blank (by decide) fun p' => ?_
    refine Emits.mark (k := .rbrace) (by decide) fun rb p' hrb => ?_
    exact Emits.done ⟨.mk lb [], Spells.block hlb Spells.noStatements hrb, rfl⟩
  | cons s ss =>
    have htext : (Block.text (.mk t (s :: ss))).toList ++ rest = '\x7b' :: ' ' ::
        ((" ".intercalate (stmtTexts (s :: ss))).toList ++ ' ' :: '\x7d' :: rest) := by
      simp [Block.text, stmtTexts]
    rw [htext]
    refine Emits.mark (k := .lbrace) (by decide) fun lb p' hlb => ?_
    refine Emits.blank (by decide) fun p' => ?_
    refine (writes_statements rfl (by decide) (s :: ss) h).emits (loose_of_mem (by decide))
      fun us p' hus => ?_
    obtain ⟨ss', hspells, hbares⟩ := hus
    refine Emits.blank (by decide) fun p' => ?_
    refine Emits.mark (k := .rbrace) (by decide) fun rb p' hrb => ?_
    exact Emits.done ⟨.mk lb ss', by simpa using Spells.block hlb hspells hrb, by
      rw [Block.bare, Block.bare, hbares]⟩

theorem writesStmt_block {f : Bool} {b : Block} (h : WritesBlock f b) :
    WritesStmt (.statement f) (.block b) := by
  intro p rest hrest
  refine (h p rest hrest).mono fun ts hts => ?_
  obtain ⟨b', hspell, hbare⟩ := hts
  exact ⟨.block b', Spells.nested hspell, by rw [Stmt.bare, Stmt.bare, hbare]⟩

/-! ## Branches and loops -/

/-- A test in parentheses and the blank behind it. -/
theorem Scan.Emits.test {e : Expr} {Q : List Token → Prop} {p : Position} {cs rest : List Char}
    (he : WritesExpr e)
    (h : ∀ lp us rp e' p', lp.kind = .lparen → Spells (.expr e') us → rp.kind = .rparen →
      e'.bare = e.bare → Emits p' cs rest fun ts => Q (lp :: (us ++ rp :: ts))) :
    Emits p ('(' :: (e.text.toList ++ ')' :: cs)) rest Q := by
  refine Emits.mark (k := .lparen) (by decide) fun lp p' hlp => ?_
  refine Emits.expr he (loose_of_mem (by decide)) fun us e' p' hspell hbare => ?_
  refine Emits.mark (k := .rparen) (by decide) fun rp p' hrp => ?_
  exact h lp us rp e' p' hlp (Spells.expr_of_applied hspell) hrp hbare

theorem writesStmt_branchOnly {f : Bool} {t : Token} {e : Expr} {b : Block} (he : WritesExpr e)
    (hb : WritesBlock f b) : WritesStmt (.branch f) (.branch t e b none) := by
  intro p rest hrest
  have htext : (Stmt.text (.branch t e b none)).toList ++ rest =
      "if".toList ++ ' ' :: '(' :: (e.text.toList ++ ')' :: ' ' :: (b.text.toList ++ rest)) := by
    simp [Stmt.text]
  rw [htext]
  refine Emits.keyword (k := .ifWord) (by decide) (loose_of_mem (by decide)) fun i p' hi _ => ?_
  refine Emits.blank (by decide) fun p' => ?_
  refine Emits.test he fun lp us rp e' p' hlp hspell hrp hbare => ?_
  refine Emits.blank (by decide) fun p' => ?_
  refine (hb p' rest hrest).mono fun vs hvs => ?_
  obtain ⟨b', hblock, hbare'⟩ := hvs
  exact ⟨_, Spells.branchOnly hi hlp hspell hrp hblock, by simp [Stmt.bare, bareStmt?, hbare, hbare']⟩

/-- A branch with an alternative, given how the alternative is spelled behind the `else`. -/
theorem writesStmt_branchElse {f : Bool} {t : Token} {e : Expr} {b : Block} {s : Stmt}
    (he : WritesExpr e) (hb : WritesBlock f b)
    (hs : Writes s.text fun ts => ∃ s', (∀ i lp us rp e' vs b' el, i.kind = .ifWord →
      lp.kind = .lparen → Spells (.expr e') us → rp.kind = .rparen → Spells (.block f b') vs →
      el.kind = .elseWord →
      Spells (.branch f (.branch i e' b' (some s'))) (i :: lp :: us ++ rp :: vs ++ el :: ts)) ∧
      s'.bare = s.bare) : WritesStmt (.branch f) (.branch t e b (some s)) := by
  intro p rest hrest
  have htext : (Stmt.text (.branch t e b (some s))).toList ++ rest =
      "if".toList ++ ' ' :: '(' :: (e.text.toList ++ ')' :: ' ' :: (b.text.toList ++ ' ' ::
        ("else".toList ++ ' ' :: (s.text.toList ++ rest)))) := by
    simp [Stmt.text]
  rw [htext]
  refine Emits.keyword (k := .ifWord) (by decide) (loose_of_mem (by decide)) fun i p' hi _ => ?_
  refine Emits.blank (by decide) fun p' => ?_
  refine Emits.test he fun lp us rp e' p' hlp hspell hrp hbare => ?_
  refine Emits.blank (by decide) fun p' => ?_
  refine hb.emits (loose_of_mem (by decide)) fun vs p' hvs => ?_
  obtain ⟨b', hblock, hbare'⟩ := hvs
  refine Emits.blank (by decide) fun p' => ?_
  refine Emits.keyword (k := .elseWord) (by decide) (loose_of_mem (by decide)) fun el p' hel _ => ?_
  refine Emits.blank (by decide) fun p' => ?_
  refine (hs p' rest hrest).mono fun ws hws => ?_
  obtain ⟨s', hbranch, hbare''⟩ := hws
  have hspells := hbranch i lp us rp e' vs b' el hi hlp hspell hrp hblock hel
  exact ⟨_, by simpa using hspells, by simp [Stmt.bare, bareStmt?, hbare, hbare', hbare'']⟩

theorem writesStmt_while {f : Bool} {t : Token} {e : Expr} {b : Block} (he : WritesExpr e)
    (hb : WritesBlock f b) : WritesStmt (.statement f) (.whileLoop t e b) := by
  intro p rest hrest
  have htext : (Stmt.text (.whileLoop t e b)).toList ++ rest =
      "while".toList ++ ' ' :: '(' :: (e.text.toList ++ ')' :: ' ' :: (b.text.toList ++ rest)) := by
    simp [Stmt.text]
  rw [htext]
  refine Emits.keyword (k := .whileWord) (by decide) (loose_of_mem (by decide)) fun w p' hw _ => ?_
  refine Emits.blank (by decide) fun p' => ?_
  refine Emits.test he fun lp us rp e' p' hlp hspell hrp hbare => ?_
  refine Emits.blank (by decide) fun p' => ?_
  refine (hb p' rest hrest).mono fun vs hvs => ?_
  obtain ⟨b', hblock, hbare'⟩ := hvs
  exact ⟨_, Spells.whileLoop hw hlp hspell hrp hblock, by simp [Stmt.bare, hbare, hbare']⟩

theorem writesStmt_do {f : Bool} {t : Token} {e : Expr} {b : Block} (hb : WritesBlock f b)
    (he : WritesExpr e) : WritesStmt (.statement f) (.doLoop t b e) := by
  intro p rest _
  have htext : (Stmt.text (.doLoop t b e)).toList ++ rest = "do".toList ++ ' ' :: (b.text.toList ++
      ' ' :: ("while".toList ++ ' ' :: '(' :: (e.text.toList ++ ')' :: ';' :: rest))) := by
    simp [Stmt.text]
  rw [htext]
  refine Emits.keyword (k := .doWord) (by decide) (loose_of_mem (by decide)) fun d p' hd _ => ?_
  refine Emits.blank (by decide) fun p' => ?_
  refine hb.emits (loose_of_mem (by decide)) fun us p' hus => ?_
  obtain ⟨b', hblock, hbare⟩ := hus
  refine Emits.blank (by decide) fun p' => ?_
  refine Emits.keyword (k := .whileWord) (by decide) (loose_of_mem (by decide)) fun w p' hw _ => ?_
  refine Emits.blank (by decide) fun p' => ?_
  refine Emits.test he fun lp vs rp e' p' hlp hspell hrp hbare' => ?_
  refine Emits.mark (k := .semicolon) (by decide) fun sc p' hsc => ?_
  have hloop := Spells.doLoop hd hblock hw hlp hspell hrp hsc
  exact Emits.done ⟨_, by simpa using hloop, by simp [Stmt.bare, hbare, hbare']⟩

/-- An expression statement, which is also the first part of a `for` loop. -/
theorem writes_exprStatement {e : Expr} (he : WritesExpr e) :
    Writes (e.text ++ ";") fun ts => ∃ t us sc e', ts = t :: us ++ [sc] ∧
      Spells (.expr e') (t :: us) ∧ sc.kind = .semicolon ∧ e'.bare = e.bare := by
  intro p rest _
  have htext : (e.text ++ ";").toList ++ rest = e.text.toList ++ ';' :: rest := by simp
  rw [htext]
  refine Emits.expr he (loose_of_mem (by decide)) fun us e' p' hspell hbare => ?_
  refine Emits.mark (k := .semicolon) (by decide) fun sc p' hsc => Emits.done ?_
  obtain ⟨t, us, rfl, -⟩ := hspell.applied_leads.exists_cons
  exact ⟨t, us, sc, e', rfl, Spells.expr_of_applied hspell, hsc, hbare⟩

theorem writesStmt_expr {f : Bool} {t : Token} {e : Expr} (he : WritesExpr e) :
    WritesStmt (.statement f) (.expr t e) := by
  intro p rest hrest
  refine (writes_exprStatement he p rest hrest).mono fun ts hts => ?_
  obtain ⟨t', us, sc, e', rfl, hspell, hsc, hbare⟩ := hts
  exact ⟨.expr t' e', Spells.exprOnly hspell hsc, by rw [Stmt.bare, Stmt.bare, hbare]⟩

def WritesInit (i : Option Stmt) : Prop :=
  Writes (initText i) fun ts => ∃ i', Spells (.init i') ts ∧ bareStmt? i' = bareStmt? i

theorem writesInit_none : WritesInit none := by
  intro p rest _
  show Emits p (';' :: rest) rest _
  refine Emits.mark (k := .semicolon) (by decide) fun sc p' hsc => ?_
  exact Emits.done ⟨none, Spells.noInit hsc, rfl⟩

theorem writesInit_var {s : Stmt} (h : WritesStmt .varDecl s) : WritesInit (some s) := by
  intro p rest hrest
  refine (h p rest hrest).mono fun ts hts => ?_
  obtain ⟨s', hspell, hbare⟩ := hts
  exact ⟨some s', Spells.varInit hspell, by rw [bareStmt?, bareStmt?, hbare]⟩

theorem writesInit_expr {t : Token} {e : Expr} (he : WritesExpr e) :
    WritesInit (some (.expr t e)) := by
  intro p rest hrest
  refine (writes_exprStatement he p rest hrest).mono fun ts hts => ?_
  obtain ⟨t', us, sc, e', rfl, hspell, hsc, hbare⟩ := hts
  exact ⟨some (.expr t' e'), Spells.exprInit hspell hsc, by simp [bareStmt?, Stmt.bare, hbare]⟩

theorem writes_testText {e : Option Expr} (he : ∀ x ∈ e, WritesExpr x) :
    Writes (testText e) fun ts => ∃ us sc e', ts = us ++ [sc] ∧ Spells (.optional e') us ∧
      sc.kind = .semicolon ∧ bareExpr? e' = bareExpr? e := by
  intro p rest _
  cases e with
  | none =>
    show Emits p (';' :: rest) rest _
    refine Emits.mark (k := .semicolon) (by decide) fun sc p' hsc => ?_
    exact Emits.done ⟨[], sc, none, rfl, Spells.nothing, hsc, rfl⟩
  | some e =>
    have htext : (testText (some e)).toList ++ rest = ' ' :: (e.text.toList ++ ';' :: rest) := by
      simp [testText]
    rw [htext]
    refine Emits.blank (by decide) fun p' => ?_
    refine Emits.expr (he e rfl) (loose_of_mem (by decide)) fun us e' p' hspell hbare => ?_
    refine Emits.mark (k := .semicolon) (by decide) fun sc p' hsc => Emits.done ?_
    refine ⟨us, sc, some e', rfl, Spells.something (Spells.expr_of_applied hspell), hsc, ?_⟩
    rw [bareExpr?, bareExpr?, hbare]

theorem writes_updateText {e : Option Expr} (he : ∀ x ∈ e, WritesExpr x) :
    Writes (updateText e) fun ts =>
      ∃ e', Spells (.optional e') ts ∧ bareExpr? e' = bareExpr? e := by
  intro p rest hrest
  cases e with
  | none => exact Emits.done ⟨none, Spells.nothing, rfl⟩
  | some e =>
    have htext : (updateText (some e)).toList ++ rest = ' ' :: (e.text.toList ++ rest) := by
      simp [updateText]
    rw [htext]
    refine Emits.blank (by decide) fun p' => ?_
    refine ((he e rfl).writes p' rest hrest).mono fun us hus => ?_
    obtain ⟨e', hspell, hbare⟩ := hus
    exact ⟨some e', Spells.something (Spells.expr_of_applied hspell), by
      rw [bareExpr?, bareExpr?, hbare]⟩

theorem writesStmt_for {f : Bool} {t : Token} {i : Option Stmt} {e u : Option Expr} {b : Block}
    (hi : WritesInit i) (he : ∀ x ∈ e, WritesExpr x) (hu : ∀ x ∈ u, WritesExpr x)
    (hb : WritesBlock f b) : WritesStmt (.statement f) (.forLoop t i e u b) := by
  intro p rest hrest
  have htext : (Stmt.text (.forLoop t i e u b)).toList ++ rest = "for".toList ++ ' ' :: '(' ::
      ((initText i).toList ++ ((testText e).toList ++ ((updateText u).toList ++ ')' :: ' ' ::
        (b.text.toList ++ rest)))) := by
    simp [Stmt.text]
  have hupdate : ∀ cs, Loose ((updateText u).toList ++ ')' :: cs) := by
    intro cs
    cases u with
    | none => exact loose_of_mem (by decide)
    | some e =>
      simp only [updateText, String.toList_append, List.append_assoc]
      exact loose_of_mem (by decide)
  have htest : ∀ cs, Loose ((testText e).toList ++ cs) := by
    intro cs
    cases e with
    | none => exact loose_of_mem (by decide)
    | some e =>
      simp only [testText, String.toList_append, List.append_assoc]
      exact loose_of_mem (by decide)
  rw [htext]
  refine Emits.keyword (k := .forWord) (by decide) (loose_of_mem (by decide)) fun w p' hw _ => ?_
  refine Emits.blank (by decide) fun p' => ?_
  refine Emits.mark (k := .lparen) (by decide) fun lp p' hlp => ?_
  refine hi.emits (htest _) fun us p' hus => ?_
  obtain ⟨i', hinit, hbare⟩ := hus
  refine (writes_testText he).emits (hupdate _) fun vs p' hvs => ?_
  obtain ⟨vs, sc, e', rfl, htests, hsc, hbare'⟩ := hvs
  refine (writes_updateText hu).emits (loose_of_mem (by decide)) fun ws p' hws => ?_
  obtain ⟨u', hupdates, hbare''⟩ := hws
  refine Emits.mark (k := .rparen) (by decide) fun rp p' hrp => ?_
  refine Emits.blank (by decide) fun p' => ?_
  refine (hb p' rest hrest).mono fun xs hxs => ?_
  obtain ⟨b', hblock, hbody⟩ := hxs
  have hloop := Spells.forLoop hw hlp hinit htests hsc hupdates hrp hblock
  exact ⟨_, by simpa using hloop, by simp [Stmt.bare, hbare, hbare', hbare'', hbody]⟩

/-! ## Other statements -/

theorem writesStmt_function {f : Bool} {t : Token} {name : Name} {tail : Parse.FunctionTail}
    (hname : IsName name.text) (htail : IsTail tail) :
    WritesStmt (.statement f) (.function t name tail.parameters tail.returns tail.body) := by
  intro p rest hrest
  have htext : (Stmt.text (.function t name tail.parameters tail.returns tail.body)).toList ++ rest =
      "fn".toList ++ ' ' :: (name.text.toList ++
        ((headText tail.parameters tail.returns ++ " " ++ tail.body.text).toList ++ rest)) := by
    simp [Stmt.text]
  have hloose : Loose ((headText tail.parameters tail.returns ++ " " ++ tail.body.text).toList ++ rest) := by
    simp only [headText, String.toList_append, List.append_assoc]
    exact loose_of_mem (by decide)
  rw [htext]
  refine Emits.keyword (k := .fnWord) (by decide) (loose_of_mem (by decide)) fun fn p' hfn _ => ?_
  refine Emits.blank (by decide) fun p' => ?_
  refine Emits.name hname hloose fun n p' hn hlit => ?_
  refine (htail.writes p' rest hrest).mono fun ts hts => ?_
  obtain ⟨tail', hspell, hparameters, hreturns, hbody⟩ := hts fn
  refine ⟨_, Spells.functionNamed hfn hn hspell, ?_⟩
  simp [Stmt.bare, Name.bare, hlit, hparameters, hreturns, hbody]

theorem writesStmt_return {t : Token} {e : Option Expr} (he : ∀ x ∈ e, WritesExpr x) :
    WritesStmt (.statement true) (.ret t e) := by
  intro p rest _
  cases e with
  | none =>
    have htext : (Stmt.text (.ret t none)).toList ++ rest = "return".toList ++ ';' :: rest := by
      simp [Stmt.text]
    rw [htext]
    refine Emits.keyword (k := .returnWord) (by decide) (loose_of_mem (by decide)) fun r p' hr _ => ?_
    refine Emits.mark (k := .semicolon) (by decide) fun sc p' hsc => ?_
    exact Emits.done ⟨.ret r none, Spells.ret hr Spells.nothing hsc, rfl⟩
  | some e =>
    have htext : (Stmt.text (.ret t (some e))).toList ++ rest =
        "return".toList ++ ' ' :: (e.text.toList ++ ';' :: rest) := by
      simp [Stmt.text]
    rw [htext]
    refine Emits.keyword (k := .returnWord) (by decide) (loose_of_mem (by decide)) fun r p' hr _ => ?_
    refine Emits.blank (by decide) fun p' => ?_
    refine Emits.expr (he e rfl) (loose_of_mem (by decide)) fun us e' p' hspell hbare => ?_
    refine Emits.mark (k := .semicolon) (by decide) fun sc p' hsc => ?_
    have hret := Spells.ret hr (Spells.something (Spells.expr_of_applied hspell)) hsc
    exact Emits.done ⟨_, by simpa using hret, by simp [Stmt.bare, bareExpr?, hbare]⟩

theorem writesStmt_display {f : Bool} {t : Token} {es : List Expr} (hes : ∀ e ∈ es, WritesExpr e) :
    WritesStmt (.statement f) (.display t es) := by
  intro p rest _
  have htext : (Stmt.text (.display t es)).toList ++ rest = "display".toList ++ '(' ::
      ((", ".intercalate (exprTexts es)).toList ++ ')' :: ';' :: rest) := by
    simp [Stmt.text]
  rw [htext]
  refine Emits.keyword (k := .displayWord) (by decide) (loose_of_mem (by decide)) fun d p' hd _ => ?_
  refine Emits.mark (k := .lparen) (by decide) fun lp p' hlp => ?_
  refine (writes_arguments hes).emits (loose_of_mem (by decide)) fun us p' hus => ?_
  obtain ⟨es', hspell, hbare⟩ := hus
  refine Emits.mark (k := .rparen) (by decide) fun rp p' hrp => ?_
  refine Emits.mark (k := .semicolon) (by decide) fun sc p' hsc => ?_
  have hdisplay := Spells.display (f := f) hd hlp hspell hrp hsc
  exact Emits.done ⟨_, by simpa using hdisplay, by simp [Stmt.bare, hbare]⟩

/-! ## Phrases -/

/-- What is known of the printed form of a phrase; nothing is said of lists with commas. -/
def Prints : Phrase → Prop
  | .typeName t => TypeText t.name
  | .declared d => ∀ t ∈ d, TypeText t.name
  | .parameter p => IsParameter p
  | .commas _ => True
  | .tail _ f => IsTail f
  | .target n => IsName n.text
  | .atom e | .applied e | .tier _ e | .expr e => WritesExpr e
  | .optional e => ∀ x ∈ e, WritesExpr x
  | .varDecl s => WritesStmt .varDecl s
  | .init i => WritesInit i
  | .branch f s => WritesStmt (.branch f) s
  | .statement f s => WritesStmt (.statement f) s
  | .statements f ss => ∀ s ∈ ss, WritesStmt (.statement f) s
  | .block f b => WritesBlock f b

/-- The same, with the items of a list with commas. -/
def PrintsAll : Phrase → Prop
  | .commas ps => ∀ p ∈ ps, Prints p
  | p => Prints p

theorem PrintsAll.prints {p : Phrase} (h : PrintsAll p) : Prints p := by
  cases p with
  | commas ps => trivial
  | _ => exact h

theorem Lexical.symbol_literal {t : Token} (h : Lexical t) {ks : List TokenKind} (hk : t.kind ∈ ks)
    (hall : ∀ k ∈ ks, k.symbol?.isSome) : t.kind.symbol? = some t.literal := by
  obtain ⟨s, hs⟩ := Option.isSome_iff_exists.1 (hall _ hk)
  rw [hs, h.symbol_eq hs]

theorem typeText_result {d : Option TypeName} {fn : Token} (h : ∀ t ∈ d, TypeText t.name) :
    TypeText (d.getD (Parse.voidAt fn)).name := by
  cases d with
  | none =>
    show TypeText "void"
    exact typeText_builtin (by decide)
  | some t => exact h t rfl

/-- Whatever the tokens of a source spell prints as a text that is spelled again. -/
theorem Spells.printsAll {ph : Phrase} {us : List Token} (h : Spells ph us)
    (hlex : ∀ t ∈ us, Lexical t) : PrintsAll ph := by
  -- the tokens of a part are among those of the whole, so its hypothesis is `hlex` again
  induction h with
  | typeWord ht => exact (hlex _ List.mem_cons_self).typeText ht
  | functionType _ _ _ _ _ _ ihps ihr =>
    refine TypeText.function (fun p hp => ?_) (ihr fun t ht => hlex t (by simp [ht]))
    obtain ⟨parameter, hparameter, rfl⟩ := List.mem_map.1 hp
    exact ihps (fun t ht => hlex t (by simp [ht])) _ (List.mem_map_of_mem hparameter)
  | undeclared => exact fun t ht => nomatch ht
  | declared _ _ ih =>
    intro t ht
    cases ht
    exact ih fun t ht => hlex t (by simp [ht])
  | parameter hn _ _ ih =>
    exact ⟨(hlex _ List.mem_cons_self).isName hn, ih fun t ht => hlex t (by simp [ht])⟩
  | none => exact fun p hp => nomatch hp
  | one _ ih =>
    intro p hp
    rw [List.mem_singleton.1 hp]
    exact (ih hlex).prints
  | more _ _ _ ih ih' =>
    intro p hp
    rcases List.mem_cons.1 hp with rfl | hp
    · exact (ih fun t ht => hlex t (by simp [ht])).prints
    · exact ih' (fun t ht => hlex t (by simp [ht])) p hp
  | tail _ _ _ _ _ ihps ihd ihb =>
    refine ⟨fun p hp => ?_, typeText_result (ihd fun t ht => hlex t (by simp [ht])),
      ihb fun t ht => hlex t (by simp [ht])⟩
    exact ihps (fun t ht => hlex t (by simp [ht])) _ (List.mem_map_of_mem hp)
  | target ht => exact (hlex _ List.mem_cons_self).isName ht
  | parenTarget _ _ _ ih => exact ih fun t ht => hlex t (by simp [ht])
  | name ht => exact writesExpr_name ((hlex _ List.mem_cons_self).isName ht)
  | int ht hn => exact writesExpr_int ((hlex _ List.mem_cons_self).isDigits ht) hn
  | float ht hx =>
    obtain ⟨ds, es, htext, hds, hes⟩ := (hlex _ List.mem_cons_self).isFloat ht
    exact writesExpr_float htext hds hes hx
  | str ht => exact writesExpr_str ((hlex _ List.mem_cons_self).lacksQuote ht)
  | bool _ => exact writesExpr_bool
  | paren _ _ _ ih => exact ih fun t ht => hlex t (by simp [ht])
  | function _ _ ih => exact writesExpr_function (ih fun t ht => hlex t (by simp [ht]))
  | atom _ ih | applied _ ih | tighter _ _ ih | tier _ ih => exact ih hlex
  | @after t e us _ ht ih =>
    have hsymbol := (hlex t (by simp)).symbol_literal ht (by decide)
    exact writesExpr_after ht hsymbol (ih fun t ht => hlex t (by simp [ht]))
  | call _ _ _ _ ih ihes =>
    refine writesExpr_call (ih fun t ht => hlex t (by simp [ht])) fun e he => ?_
    exact ihes (fun t ht => hlex t (by simp [ht])) _ (List.mem_map_of_mem he)
  | before ht _ ih =>
    have hsymbol := (hlex _ List.mem_cons_self).symbol_literal ht (by decide)
    exact writesExpr_before ht hsymbol (ih fun t ht => hlex t (by simp [ht]))
  | @binary k t l r us vs _ ht _ ihl ihr =>
    have hall : ∀ op ∈ operatorsAt k, op.symbol?.isSome := by
      unfold operatorsAt
      split <;> decide
    have hsymbol := (hlex t (by simp)).symbol_literal ht hall
    exact writesExpr_binary ht hsymbol (ihl fun t ht => hlex t (by simp [ht]))
      (ihr fun t ht => hlex t (by simp [ht]))
  | choice _ _ _ _ _ ihe iha ihb =>
    exact writesExpr_choice (ihe fun t ht => hlex t (by simp [ht]))
      (iha fun t ht => hlex t (by simp [ht])) (ihb fun t ht => hlex t (by simp [ht]))
  | assign _ _ _ ihn ihe =>
    exact writesExpr_assign (ihn fun t ht => hlex t (by simp [ht]))
      (ihe fun t ht => hlex t (by simp [ht]))
  | nothing => exact fun x hx => nomatch hx
  | something _ ih =>
    intro x hx
    cases hx
    exact ih hlex
  | @varValue v n eq sc d kept e us vs _ hn _ _ _ hkept _ ihd ihe =>
    exact writesStmt_var ((hlex n (by simp)).isName hn) hkept (ihd fun t ht => hlex t (by simp [ht]))
      (ihe fun t ht => hlex t (by simp [ht]))
  | @varType v n sc d us _ hn _ _ ih =>
    exact writesStmt_varType ((hlex n (by simp)).isName hn)
      (ih (fun t ht => hlex t (by simp [ht])) d rfl)
  | var _ ih => exact (ih hlex).mono fun _ _ h => Spells.var h
  | @const f c n eq sc d kept e us vs _ hn _ _ _ hkept _ ihd ihe =>
    exact writesStmt_const ((hlex n (by simp)).isName hn) hkept (ihd fun t ht => hlex t (by simp [ht]))
      (ihe fun t ht => hlex t (by simp [ht]))
  | branchOnly _ _ _ _ _ ihe ihb =>
    exact writesStmt_branchOnly (ihe fun t ht => hlex t (by simp [ht]))
      (ihb fun t ht => hlex t (by simp [ht]))
  | branchElse _ _ _ _ _ _ _ ihe ihb ihc =>
    refine writesStmt_branchElse (ihe fun t ht => hlex t (by simp [ht]))
      (ihb fun t ht => hlex t (by simp [ht])) fun p rest hrest => ?_
    have hblock : WritesBlock _ _ := ihc fun t ht => hlex t (by simp [ht])
    refine (hblock p rest hrest).mono fun ts hts => ?_
    obtain ⟨c', hspell, hbare⟩ := hts
    refine ⟨.block c', ?_, by rw [Stmt.bare, Stmt.bare, hbare]⟩
    intro i lp us rp e' vs b' el hi hlp he hrp hb hel
    exact Spells.branchElse hi hlp he hrp hb hel hspell
  | branchChain _ _ _ _ _ _ _ ihe ihb ihs =>
    refine writesStmt_branchElse (ihe fun t ht => hlex t (by simp [ht]))
      (ihb fun t ht => hlex t (by simp [ht])) fun p rest hrest => ?_
    have hbranch : WritesStmt (.branch _) _ := ihs fun t ht => hlex t (by simp [ht])
    refine (hbranch p rest hrest).mono fun ts hts => ?_
    obtain ⟨s', hspell, hbare⟩ := hts
    refine ⟨s', ?_, hbare⟩
    intro i lp us rp e' vs b' el hi hlp he hrp hb hel
    exact Spells.branchChain hi hlp he hrp hb hel hspell
  | branch _ ih => exact (ih hlex).mono fun _ _ h => Spells.branch h
  | noInit _ => exact writesInit_none
  | varInit _ ih => exact writesInit_var (ih hlex)
  | exprInit _ _ ih => exact writesInit_expr (ih fun t ht => hlex t (List.mem_append_left _ ht))
  | forLoop _ _ _ _ _ _ _ _ ihi ihe ihu ihb =>
    exact writesStmt_for (ihi fun t ht => hlex t (by simp [ht])) (ihe fun t ht => hlex t (by simp [ht]))
      (ihu fun t ht => hlex t (by simp [ht])) (ihb fun t ht => hlex t (by simp [ht]))
  | whileLoop _ _ _ _ _ ihe ihb =>
    exact writesStmt_while (ihe fun t ht => hlex t (by simp [ht]))
      (ihb fun t ht => hlex t (by simp [ht]))
  | doLoop _ _ _ _ _ _ _ ihb ihe =>
    exact writesStmt_do (ihb fun t ht => hlex t (by simp [ht])) (ihe fun t ht => hlex t (by simp [ht]))
  | @functionNamed f fn n t us _ hn _ ih =>
    exact writesStmt_function ((hlex n (by simp)).isName hn) (ih fun t ht => hlex t (by simp [ht]))
  | ret _ _ _ ih => exact writesStmt_return (ih fun t ht => hlex t (by simp [ht]))
  | display _ _ _ _ _ ih =>
    refine writesStmt_display fun e he => ?_
    exact ih (fun t ht => hlex t (by simp [ht])) _ (List.mem_map_of_mem he)
  | nested _ ih => exact writesStmt_block (ih hlex)
  | exprOnly _ _ ih => exact writesStmt_expr (ih fun t ht => hlex t (List.mem_append_left _ ht))
  | noStatements => exact fun s hs => nomatch hs
  | empty _ _ ih => exact ih fun t ht => hlex t (by simp [ht])
  | cons _ _ ihs ihss =>
    intro s hs
    rcases List.mem_cons.1 hs with rfl | hs
    · exact ihs fun t ht => hlex t (by simp [ht])
    · exact ihss (fun t ht => hlex t (by simp [ht])) s hs
  | block _ _ _ ih => exact writesBlock (ih fun t ht => hlex t (by simp [ht]))

end ScriptLang
