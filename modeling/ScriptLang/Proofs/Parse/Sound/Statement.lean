import ScriptLang.Proofs.Parse.Sound.Expression

/-!
  What is read was spelled: statements, blocks and programs.

  A statement that had to be dropped takes its tokens with it, so the tokens that spell a block are
  those of the statements that were kept.  Each turn of a loop over statements steps over at least one
  token.  One induction over the bound on nested routines closes the circle from expressions through
  function bodies back to expressions: twice the number of tokens is enough.
-/

namespace ScriptLang.Parse

/-- What the routines for the parts of a statement do when fewer than `n` tokens are in front. -/
structure Parts.Sound (parts : Parts) (n : Nat) : Prop where
  expr : ReadsExpr n parts.expr
  block : ReadsBlock n parts.block
  fuel : n ≤ parts.fuel

/-- The tokens spell the statement, or spell nothing where there is none: put in front of others, they
    spell it in front of those. -/
def Adds (inFunction : Bool) (kept : Option Stmt) (ws : List Token) : Prop :=
  ∀ ss us, Spells (.statements inFunction ss) us →
    Spells (.statements inFunction (kept.toList ++ ss)) (ws ++ us)

/-- The routine reads a statement, or a semicolon, when fewer than `n` tokens are behind the current
    one. -/
def ReadsStatement (n : Nat) (p : Parse (Option Stmt)) : Prop :=
  ∀ s : State, s.current.kind ≠ .eof → s.rest.length < n →
    Reads Path s p fun vs kept s' =>
      Adds s.inFunction kept (s.current :: vs) ∧ s'.current.kind ≠ .eof

theorem reconcile_reads {kind : DeclarationKind} {name : Name} {d : Option TypeName} {e : Expr}
    {s : State} :
    Reads Path s (reconcile kind name d e) fun vs kept s' => vs = [] ∧ KeepsType d e kept ∧ s' = s := by
  unfold reconcile
  split
  · exact Reads.pure ⟨rfl, KeepsType.inferred, rfl⟩
  · rename_i hnone
    refine Reads.pure ⟨rfl, KeepsType.declared ?_, rfl⟩
    rw [hnone]
    exact fun i hi => nomatch hi
  · rename_i inferred hsome
    split
    · rename_i hname
      refine Reads.pure ⟨rfl, KeepsType.declared ?_, rfl⟩
      rw [hsome]
      rintro i ⟨⟩
      exact hname
    · exact Reads.reject

namespace Parts.Sound

variable {parts : Parts} {n : Nat} (h : parts.Sound n) {s : State} (hn : s.rest.length < n)

include h hn

theorem nextExpr_reads (hs : s.current.kind ≠ .eof) :
    Reads Path s parts.nextExpr fun vs e s' => Spells (.expr e) vs ∧ s'.current.kind ≠ .eof := by
  refine Reads.advance hs fun t s₁ _ hcur hpath => ?_
  have hlen := hpath.length_le
  refine (h.expr.lowest (by omega)).mono fun vs e s₂ _ he => ?_
  rw [hcur] at he
  exact ⟨he.1, he.2.1⟩

theorem test_reads :
    Reads Path s parts.test fun vs e s' =>
      ∃ lp us rp, vs = lp :: us ++ [rp] ∧ lp.kind = .lparen ∧ Spells (.expr e) us ∧
        rp.kind = .rparen ∧ s'.current = rp := by
  refine Reads.expect (by decide) fun lp s₁ hlp hcur hpath => ?_
  have hlen := hpath.length_le
  refine (h.nextExpr_reads (by omega) (by rw [hcur, hlp]; decide)).bind fun us e s₂ _ he => ?_
  refine Reads.expect (by decide) fun rp s₃ hrp hcur₃ _ => ?_
  exact Reads.pure ⟨lp, us, rp, by simp, hlp, he.1, hrp, hcur₃⟩

theorem nextBlock_reads :
    Reads Path s parts.nextBlock fun vs b s' =>
      Spells (.block s.inFunction b) vs ∧ s'.current.kind ≠ .eof := by
  refine Reads.expect (by decide) fun lb s₁ hlb hcur hpath => ?_
  have hlen := hpath.length_le
  refine (h.block s₁ (by rw [hcur, hlb]) (by omega)).mono fun vs b s₂ _ hb => ?_
  rwa [hcur, hpath.inFunction_eq] at hb

/-- The value of a declaration, from its `=` to its semicolon. -/
theorem value_reads {kind : DeclarationKind} {name : Name} {d : Option TypeName}
    {declaration : Option TypeName → Expr → Stmt} (hs : s.current.kind ≠ .eof)
    (hassign : s.next.kind = .assign) :
    Reads Path s (do
      advance
      let value ← parts.nextExpr
      let declared ← reconcile kind name d value
      expect .semicolon
      return declaration declared value) fun vs st s' =>
      ∃ eq us sc kept e, vs = eq :: us ++ [sc] ∧ st = declaration kept e ∧ eq.kind = .assign ∧
        Spells (.expr e) us ∧ KeepsType d e kept ∧ sc.kind = .semicolon ∧ s'.current = sc := by
  refine Reads.advance hs fun eq s₁ hnext hcur₁ hpath₁ => ?_
  have hlen₁ := hpath₁.length_le
  have heq : eq.kind = .assign := by rw [← hnext]; exact hassign
  refine (h.nextExpr_reads (by omega) (by rw [hcur₁, heq]; decide)).bind fun us e s₂ _ he => ?_
  refine reconcile_reads.bind fun ws kept s₃ _ hkept => ?_
  obtain ⟨rfl, hkept, rfl⟩ := hkept
  refine Reads.expect (by decide) fun sc s₄ hsc hcur₄ _ => ?_
  exact Reads.pure ⟨eq, us, sc, kept, e, by simp, rfl, heq, he.1, hkept, hsc, hcur₄⟩

theorem varStatement_reads (hk : s.current.kind = .varWord) :
    Reads Path s parts.varStatement fun vs st s' =>
      Spells (.varDecl st) (s.current :: vs) ∧ s'.current.kind ≠ .eof := by
  refine Reads.current ?_
  refine expectName_reads.bind fun vs name s₁ hpath₁ ht => ?_
  obtain ⟨t, rfl, ht, rfl, hcur₁⟩ := ht
  have hlen₁ := hpath₁.length_le
  refine (declaredType?_reads h.fuel s₁ (by rw [hcur₁, ht]; decide) (by omega)).bind
    fun us d s₂ hpath₂ hd => ?_
  have hlen₂ := hpath₂.length_le
  refine Reads.ifPeekIs (fun hassign => ?_) (fun _ => ?_)
  · refine (h.value_reads (by omega) hd.2 hassign).mono fun vs st s₃ _ hst => ?_
    obtain ⟨eq, us, sc, kept, e, rfl, rfl, heq, he, hkept, hsc, hcur₃⟩ := hst
    exact ⟨by simpa using Spells.varValue hk ht hd.1 heq he hkept hsc, by rw [hcur₃, hsc]; decide⟩
  · cases d with
    | none => exact Reads.reject
    | some d =>
      refine Reads.expect (by decide) fun sc s₃ hsc hcur₃ _ => ?_
      refine Reads.pure ⟨?_, by rw [hcur₃, hsc]; decide⟩
      simpa using Spells.varType hk ht hd.1 hsc

theorem constStatement_reads (hk : s.current.kind = .constWord) :
    Reads Path s parts.constStatement fun vs st s' =>
      Spells (.statement s.inFunction st) (s.current :: vs) ∧ s'.current.kind ≠ .eof := by
  refine Reads.current ?_
  refine expectName_reads.bind fun vs name s₁ hpath₁ ht => ?_
  obtain ⟨t, rfl, ht, rfl, hcur₁⟩ := ht
  have hlen₁ := hpath₁.length_le
  refine (declaredType?_reads h.fuel s₁ (by rw [hcur₁, ht]; decide) (by omega)).bind
    fun us d s₂ hpath₂ hd => ?_
  have hlen₂ := hpath₂.length_le
  refine Reads.ifPeekIs (fun hassign => ?_) (fun _ => Reads.reject)
  refine (h.value_reads (by omega) hd.2 hassign).mono fun vs st s₃ _ hst => ?_
  obtain ⟨eq, us, sc, kept, e, rfl, rfl, heq, he, hkept, hsc, hcur₃⟩ := hst
  exact ⟨by simpa using Spells.const hk ht hd.1 heq he hkept hsc, by rw [hcur₃, hsc]; decide⟩

/-- An expression statement, as a statement or as the first part of a `for` loop. -/
theorem exprStatement_reads :
    Reads Path s parts.exprStatement fun vs st s' =>
      ∃ us e sc, vs = us ++ [sc] ∧ st = .expr s.current e ∧ Spells (.expr e) (s.current :: us) ∧
        sc.kind = .semicolon ∧ s'.current = sc := by
  refine Reads.current ?_
  refine (h.expr.lowest hn).bind fun us e s₁ _ he => ?_
  refine Reads.expect (by decide) fun sc s₂ hsc hcur₂ _ => ?_
  exact Reads.pure ⟨us, e, sc, rfl, rfl, he.1, hsc, hcur₂⟩

theorem whileStatement_reads (hk : s.current.kind = .whileWord) :
    Reads Path s parts.whileStatement fun vs st s' =>
      Spells (.statement s.inFunction st) (s.current :: vs) ∧ s'.current.kind ≠ .eof := by
  refine Reads.current ?_
  refine (h.test_reads hn).bind fun vs e s₁ hpath₁ he => ?_
  obtain ⟨lp, us, rp, rfl, hlp, he, hrp, -⟩ := he
  have hlen₁ := hpath₁.length_le
  refine (h.nextBlock_reads (by omega)).bind fun ws b s₂ _ hb => ?_
  rw [hpath₁.inFunction_eq] at hb
  exact Reads.pure ⟨by simpa using Spells.whileLoop hk hlp he hrp hb.1, hb.2⟩

theorem doStatement_reads (hk : s.current.kind = .doWord) :
    Reads Path s parts.doStatement fun vs st s' =>
      Spells (.statement s.inFunction st) (s.current :: vs) ∧ s'.current.kind ≠ .eof := by
  refine Reads.current ?_
  refine (h.nextBlock_reads hn).bind fun us b s₁ hpath₁ hb => ?_
  have hlen₁ := hpath₁.length_le
  refine Reads.expect (by decide) fun w s₂ hw _ hpath₂ => ?_
  have hlen₂ := hpath₂.length_le
  refine (h.test_reads (by omega)).bind fun vs e s₃ _ he => ?_
  obtain ⟨lp, vs, rp, rfl, hlp, he, hrp, -⟩ := he
  refine Reads.expect (by decide) fun sc s₄ hsc hcur₄ _ => ?_
  refine Reads.pure ⟨?_, by rw [hcur₄, hsc]; decide⟩
  simpa using Spells.doLoop hk hb.1 hw hlp he hrp hsc

theorem functionStatement_reads (hk : s.current.kind = .fnWord) (hname : s.next.kind = .ident) :
    Reads Path s parts.functionStatement fun vs st s' =>
      Spells (.statement s.inFunction st) (s.current :: vs) ∧ s'.current.kind ≠ .eof := by
  refine Reads.current ?_
  refine Reads.advance (by rw [hk]; decide) fun t s₁ hnext hcur₁ hpath₁ => ?_
  rw [hnext] at hname
  have hlen₁ := hpath₁.length_le
  refine Reads.current ?_
  rw [hcur₁]
  refine (functionTail_reads h.block (Nat.le_add_right _ _) h.fuel s.current s₁ (by rw [hcur₁, hname]; decide)
    (by omega)).bind fun vs f s₂ _ hf => ?_
  exact Reads.pure ⟨by simpa using Spells.functionNamed hk hname hf.1, hf.2⟩

theorem returnStatement_reads (hk : s.current.kind = .returnWord) :
    Reads Path s parts.returnStatement fun vs st s' =>
      Spells (.statement s.inFunction st) (s.current :: vs) ∧ s'.current.kind ≠ .eof := by
  refine Reads.current ?_
  show Reads Path s (if ¬ s.inFunction then _ else _) _
  split
  · exact Reads.reject
  · rename_i hin
    rw [Bool.not_eq_true, Bool.not_eq_false] at hin
    rw [hin]
    have heof : s.current.kind ≠ .eof := by rw [hk]; decide
    refine Reads.ifPeekIs (fun hsc => ?_) (fun _ => ?_)
    · refine Reads.advance heof fun sc s₁ hnext hcur₁ _ => ?_
      rw [hnext] at hsc
      exact Reads.pure ⟨Spells.ret hk Spells.nothing hsc, by rw [hcur₁, hsc]; decide⟩
    · refine (h.nextExpr_reads hn heof).bind fun us e s₁ _ he => ?_
      refine Reads.expect (by decide) fun sc s₂ hsc hcur₂ _ => ?_
      refine Reads.pure ⟨?_, by rw [hcur₂, hsc]; decide⟩
      simpa using Spells.ret hk (Spells.something he.1) hsc

theorem displayStatement_reads (hk : s.current.kind = .displayWord) :
    Reads Path s parts.displayStatement fun vs st s' =>
      Spells (.statement s.inFunction st) (s.current :: vs) ∧ s'.current.kind ≠ .eof := by
  have hfuel := h.fuel
  refine Reads.current ?_
  refine Reads.expect (by decide) fun lp s₁ hlp hcur₁ hpath₁ => ?_
  have hlen₁ := hpath₁.length_le
  refine (arguments_reads h.expr (by rw [hcur₁, hlp]; decide) (by omega) (by omega)).bind
    fun vs es s₂ _ hes => ?_
  obtain ⟨us, rp, rfl, hes, hrp, -⟩ := hes
  refine Reads.expect (by decide) fun sc s₃ hsc hcur₃ _ => ?_
  refine Reads.pure ⟨?_, by rw [hcur₃, hsc]; decide⟩
  simpa using Spells.display hk hlp hes hrp hsc

omit hn in
/-- A chain of alternatives is no longer than the tokens that spell it. -/
theorem branchStatement_reads (steps : Nat) :
    ∀ s : State, s.current.kind = .ifWord → s.rest.length < n → s.rest.length < steps →
      Reads Path s (parts.branchStatement steps) fun vs st s' =>
        Spells (.branch s.inFunction st) (s.current :: vs) ∧ s'.current.kind ≠ .eof := by
  induction steps with
  | zero => intro s _ _ hsteps; omega
  | succ steps ih =>
    intro s hk hn hsteps
    refine Reads.current ?_
    refine (h.test_reads hn).bind fun vs e s₁ hpath₁ he => ?_
    obtain ⟨lp, us, rp, rfl, hlp, he, hrp, -⟩ := he
    have hlen₁ := hpath₁.length_le
    refine (h.nextBlock_reads (by omega)).bind fun ws b s₂ hpath₂ hb => ?_
    rw [hpath₁.inFunction_eq] at hb
    have hlen₂ := hpath₂.length_le
    refine Reads.ifPeekIs (fun helse => ?_) (fun _ => ?_)
    · refine Reads.advance hb.2 fun el s₃ hnext hcur₃ hpath₃ => ?_
      have hel : el.kind = .elseWord := by rw [← hnext]; exact helse
      have hs₃ : s₃.current.kind ≠ .eof := by rw [hcur₃, hel]; decide
      have hlen₃ := hpath₃.length_le
      have hflag : ∀ {vs} s', Path s₂ vs s' → s'.inFunction = s.inFunction := fun s' hpath =>
        (hpath₁.trans (hpath₂.trans hpath)).inFunction_eq
      refine Reads.peek ?_
      split
      · -- `else if`: the next branch of the chain has less in front of it
        rename_i hif
        refine Reads.advance hs₃ fun t s₄ hnext₄ hcur₄ hpath₄ => ?_
        have hlen₄ := hpath₄.length_le
        simp only [List.length_singleton] at hlen₄
        rw [hnext₄, ← hcur₄] at hif
        refine (ih s₄ hif (by omega) (by omega)).bind fun xs st s₅ _ hst => ?_
        refine Reads.pure ⟨?_, hst.2⟩
        rw [hcur₄, hflag s₄ (hpath₃.trans hpath₄)] at hst
        simpa using Spells.branchChain hk hlp he hrp hb.1 hel hst.1
      · rename_i hbrace
        refine Reads.advance hs₃ fun t s₄ hnext₄ hcur₄ hpath₄ => ?_
        have hlen₄ := hpath₄.length_le
        rw [hnext₄, ← hcur₄] at hbrace
        refine (h.block s₄ hbrace (by omega)).bind fun xs c s₅ _ hc => ?_
        refine Reads.pure ⟨?_, hc.2⟩
        rw [hcur₄, hflag s₄ (hpath₃.trans hpath₄)] at hc
        simpa using Spells.branchElse hk hlp he hrp hb.1 hel hc.1
      · exact Reads.reject
    · exact Reads.pure ⟨by simpa using Spells.branchOnly hk hlp he hrp hb.1, hb.2⟩

theorem forInit_reads :
    Reads Path s parts.forInit fun vs i s' =>
      Spells (.init i) (s.current :: vs) ∧ s'.current.kind ≠ .eof := by
  refine Reads.current ?_
  split
  · rename_i hk
    exact Reads.pure ⟨Spells.noInit hk, by rw [hk]; decide⟩
  · rename_i hk
    refine (h.varStatement_reads hn hk).bind fun vs st s₁ _ hst => ?_
    exact Reads.pure ⟨by simpa using Spells.varInit hst.1, hst.2⟩
  · refine (h.exprStatement_reads hn).bind fun vs st s₁ _ hst => ?_
    obtain ⟨us, e, sc, rfl, rfl, he, hsc, hcur⟩ := hst
    exact Reads.pure ⟨by simpa using Spells.exprInit he hsc, by rw [hcur, hsc]; decide⟩

theorem forTest_reads (hs : s.current.kind ≠ .eof) :
    Reads Path s parts.forTest fun vs e s' =>
      ∃ us sc, vs = us ++ [sc] ∧ Spells (.optional e) us ∧ sc.kind = .semicolon ∧
        s'.current = sc := by
  refine Reads.ifPeekIs (fun hsc => ?_) (fun _ => ?_)
  · refine Reads.advance hs fun sc s₁ hnext hcur₁ _ => ?_
    rw [hnext] at hsc
    exact Reads.pure ⟨[], sc, rfl, Spells.nothing, hsc, hcur₁⟩
  · refine (h.nextExpr_reads hn hs).bind fun us e s₁ _ he => ?_
    refine Reads.expect (by decide) fun sc s₂ hsc hcur₂ _ => ?_
    exact Reads.pure ⟨us, sc, by simp, Spells.something he.1, hsc, hcur₂⟩

theorem forUpdate_reads (hs : s.current.kind ≠ .eof) :
    Reads Path s parts.forUpdate fun vs e s' =>
      Spells (.optional e) vs ∧ s'.current.kind ≠ .eof := by
  refine Reads.ifPeekIs (fun _ => Reads.pure ⟨Spells.nothing, hs⟩) (fun _ => ?_)
  refine (h.nextExpr_reads hn hs).bind fun us e s₁ _ he => ?_
  exact Reads.pure ⟨by simpa using Spells.something he.1, he.2⟩

theorem forStatement_reads (hk : s.current.kind = .forWord) :
    Reads Path s parts.forStatement fun vs st s' =>
      Spells (.statement s.inFunction st) (s.current :: vs) ∧ s'.current.kind ≠ .eof := by
  refine Reads.current ?_
  refine Reads.expect (by decide) fun lp s₁ hlp hcur₁ hpath₁ => ?_
  have hlen₁ := hpath₁.length_le
  refine Reads.advance (by rw [hcur₁, hlp]; decide) fun t s₂ _ hcur₂ hpath₂ => ?_
  have hlen₂ := hpath₂.length_le
  refine (h.forInit_reads (by omega)).bind fun us i s₃ hpath₃ hi => ?_
  rw [hcur₂] at hi
  have hlen₃ := hpath₃.length_le
  refine (h.forTest_reads (by omega) hi.2).bind fun vs e s₄ hpath₄ he => ?_
  obtain ⟨vs, sc, rfl, he, hsc, hcur₄⟩ := he
  have hlen₄ := hpath₄.length_le
  refine (h.forUpdate_reads (by omega) (by rw [hcur₄, hsc]; decide)).bind fun ws u s₅ hpath₅ hu => ?_
  have hlen₅ := hpath₅.length_le
  refine Reads.expect (by decide) fun rp s₆ hrp _ hpath₆ => ?_
  have hlen₆ := hpath₆.length_le
  refine (h.nextBlock_reads (by omega)).bind fun xs b s₇ _ hb => ?_
  have hflag : s₆.inFunction = s.inFunction := by
    have hhead := hpath₁.trans (hpath₂.trans (hpath₃.trans (hpath₄.trans (hpath₅.trans hpath₆))))
    exact hhead.inFunction_eq
  rw [hflag] at hb
  refine Reads.pure ⟨?_, hb.2⟩
  simpa using Spells.forLoop hk hlp hi.1 he hsc hu.1 hrp hb.1

omit hn in
theorem statement_reads : ReadsStatement n parts.statement := by
  intro s hs hn
  -- all forms of statement but the empty one are kept in the same way
  have hkeep : ∀ {p : Parse Stmt},
      (Reads Path s p fun vs st s' =>
        Spells (.statement s.inFunction st) (s.current :: vs) ∧ s'.current.kind ≠ .eof) →
      Reads Path s (do return some (← p)) fun vs kept s' =>
        Adds s.inFunction kept (s.current :: vs) ∧ s'.current.kind ≠ .eof := by
    intro p hp
    refine hp.bind fun vs st s₁ _ hst => Reads.pure ⟨fun ss us hss => ?_, hst.2⟩
    simpa using Spells.cons hst.1 hss
  have hexpr : Reads Path s parts.exprStatement fun vs st s' =>
      Spells (.statement s.inFunction st) (s.current :: vs) ∧ s'.current.kind ≠ .eof := by
    refine (h.exprStatement_reads hn).mono fun vs st s₁ _ hst => ?_
    obtain ⟨us, e, sc, rfl, rfl, he, hsc, hcur⟩ := hst
    exact ⟨Spells.exprOnly he hsc, by rw [hcur, hsc]; decide⟩
  refine Reads.current ?_
  split
  · rename_i hk
    exact Reads.pure ⟨fun ss us hss => Spells.empty hk hss, hs⟩
  · rename_i hk
    exact hkeep ((h.varStatement_reads hn hk).mono fun _ _ _ _ hst => ⟨Spells.var hst.1, hst.2⟩)
  · rename_i hk
    exact hkeep (h.constStatement_reads hn hk)
  · rename_i hk
    have hbranch := h.branchStatement_reads parts.fuel s hk hn (Nat.lt_of_lt_of_le hn h.fuel)
    exact hkeep (hbranch.mono fun _ _ _ _ hst => ⟨Spells.branch hst.1, hst.2⟩)
  · rename_i hk
    exact hkeep (h.forStatement_reads hn hk)
  · rename_i hk
    exact hkeep (h.whileStatement_reads hn hk)
  · rename_i hk
    exact hkeep (h.doStatement_reads hn hk)
  · rename_i hk
    exact hkeep (h.returnStatement_reads hn hk)
  · rename_i hk
    exact hkeep (h.displayStatement_reads hn hk)
  · rename_i hk
    refine (h.block s hk hn).bind fun vs b s₁ _ hb => Reads.pure ⟨fun ss us hss => ?_, hb.2⟩
    simpa using Spells.cons (Spells.nested hb.1) hss
  · rename_i hk
    refine Reads.ifPeekIs (fun hname => ?_) (fun _ => hkeep hexpr)
    exact hkeep (h.functionStatement_reads hn hk hname)
  · exact hkeep hexpr

end Parts.Sound

/-! ## Loops over statements -/

section Loops

variable {n : Nat} {st : Parse (Option Stmt)} (hst : ReadsStatement n st)

include hst

/-- A turn of the loop never gives up, and it steps over at least one token. -/
theorem keptStatement_reads {s : State} (hs : s.current.kind ≠ .eof) (hn : s.rest.length < n) :
    Reads Span s (keptStatement st) fun ws kept s' =>
      Adds s.inFunction kept ws ∧ s'.rest.length < s.rest.length := by
  intro hends
  have hmeets := hst s hs hn hends
  show Meets Span s _ (EStateM.bind (attempt st) _ s)
  unfold EStateM.bind attempt
  cases hr : st s with
  | ok kept s₁ =>
    rw [hr] at hmeets
    obtain ⟨vs, hpath, hadds, hs₁⟩ := hmeets
    have hlen := hpath.length_le
    have hends₁ := hpath.ends hends
    obtain ⟨c, rest, ds, f⟩ := s₁
    cases rest with
    | nil => exact absurd hends₁ hs₁
    | cons t ts =>
      refine ⟨s.current :: vs, Span.of_path hpath (Path.step rfl) rfl rfl, ?_, ?_⟩
      · simpa using hadds
      · simp only [List.length_cons] at hlen
        show ts.length < s.rest.length
        omega
  | error e s₁ =>
    rw [hr] at hmeets
    cases e with
    | halt h => exact hmeets
    | rejected =>
      obtain ⟨hpath, hdiag⟩ := hmeets
      have hlen := hpath.length_le
      have hspan := Span.of_fail hpath hdiag
      have hadds : Adds s.inFunction none [] := fun _ _ h => h
      obtain ⟨c, rest, ds, f⟩ := s₁
      cases rest with
      | nil =>
        -- the cursor is at the end of the input and stays there
        refine ⟨[], hspan, hadds, ?_⟩
        show 0 < s.rest.length
        refine List.length_pos_iff.2 fun hnil => hs ?_
        rw [State.Ends, hnil] at hends
        exact hends
      | cons t ts =>
        have hspan' : Span s [c] ⟨t, ts, ds, f⟩ :=
          hspan.trans (Span.of_path (Path.refl _) (Path.step rfl) rfl rfl)
        refine ⟨[], hspan'.forget hdiag, hadds, ?_⟩
        simp only [List.length_cons] at hlen
        show ts.length < s.rest.length
        omega

theorem blockStatements_reads (line steps : Nat) :
    ∀ s : State, s.rest.length < n → s.rest.length < steps →
      Reads Span s (blockStatements st line steps) fun ws ss s' =>
        Spells (.statements s.inFunction ss) ws ∧ s'.current.kind = .rbrace := by
  induction steps with
  | zero => intro s _ hsteps; omega
  | succ steps ih =>
    intro s hn hsteps
    refine Reads.current ?_
    split
    · rename_i hk
      exact Reads.pure ⟨Spells.noStatements, hk⟩
    · exact Reads.reject
    · rename_i heof
      refine (keptStatement_reads hst heof hn).bind fun ws kept s₁ hspan hkept => ?_
      obtain ⟨hadds, hlen⟩ := hkept
      refine (ih s₁ (by omega) (by omega)).bind fun ws' ss s₂ _ hss => ?_
      rw [hspan.inFunction_eq] at hss
      exact Reads.pure ⟨by simpa using hadds ss ws' hss.1, hss.2⟩

theorem blockRule_reads {fuel : Nat} (hfuel : n ≤ fuel) :
    ReadsBlock (n + 1) (blockRule st fuel) := by
  intro s hk hn
  refine Reads.current ?_
  have hbody : ∀ s', s'.rest.length < s.rest.length → s'.inFunction = s.inFunction →
      Reads Span s' (do return .mk s.current (← blockStatements st s.current.line fuel))
        fun ws b s' => ∃ ss, b = Block.mk s.current ss ∧ Spells (.statements s.inFunction ss) ws ∧
          s'.current.kind = .rbrace := by
    intro s' hlen hflag
    rw [← hflag]
    refine (blockStatements_reads hst _ fuel s' (by omega) (by omega)).bind fun ws ss s₂ _ hss => ?_
    exact Reads.pure ⟨ss, rfl, by simpa using hss.1, hss.2⟩
  refine (Reads.within (by rw [hk]; decide) hbody).mono fun vs b s' _ hb => ?_
  obtain ⟨ws, rfl, ss, rfl, hss, hrb⟩ := hb
  exact ⟨by simpa using Spells.block hk hss hrb, by rw [hrb]; decide⟩

theorem programStatements_reads (steps : Nat) :
    ∀ s : State, s.rest.length < n → s.rest.length < steps →
      Reads Span s (programStatements st steps) fun ws ss s' =>
        Spells (.statements s.inFunction ss) ws ∧ s'.current.kind = .eof := by
  induction steps with
  | zero => intro s _ hsteps; omega
  | succ steps ih =>
    intro s hn hsteps
    refine Reads.current ?_
    split
    · rename_i hk
      exact Reads.pure ⟨Spells.noStatements, hk⟩
    · rename_i heof
      refine (keptStatement_reads hst heof hn).bind fun ws kept s₁ hspan hkept => ?_
      obtain ⟨hadds, hlen⟩ := hkept
      refine (ih s₁ (by omega) (by omega)).bind fun ws' ss s₂ _ hss => ?_
      rw [hspan.inFunction_eq] at hss
      exact Reads.pure ⟨by simpa using hadds ss ws' hss.1, hss.2⟩

end Loops

/-! ## All routines together -/

/-- The induction over the bound: a statement is one level above its expressions and blocks, and these
    take a token before they come to the next level. -/
theorem routines_read (fuel : Nat) :
    (∀ n, 2 * n + 1 ≤ fuel → ReadsExpr n (expression fuel)) ∧
    (∀ n, 2 * n + 2 ≤ fuel → ReadsStatement n (statement fuel)) ∧
    (∀ n, 2 * n + 1 ≤ fuel → ReadsBlock n (block fuel)) := by
  induction fuel with
  | zero =>
    refine ⟨?_, ?_, ?_⟩
    · intro n h; omega
    · intro n h; omega
    · intro n h; omega
  | succ fuel ih =>
    obtain ⟨hexpr, hstatement, hblock⟩ := ih
    refine ⟨?_, ?_, ?_⟩
    · intro n hn
      cases n with
      | zero => intro _ _ s hlen; omega
      | succ n =>
        refine expressionRule_reads (hexpr n (by omega)) (by omega) fun fn => ?_
        exact functionTail_reads (hblock n (by omega)) (by omega) (by omega) fn
    · intro n hn
      have hparts : Parts.Sound ⟨expression fuel, block fuel, fuel⟩ n :=
        ⟨hexpr n (by omega), hblock n (by omega), by
          show n ≤ fuel
          omega⟩
      exact hparts.statement_reads
    · intro n hn
      cases n with
      | zero => intro s _ hlen; omega
      | succ n => exact blockRule_reads (hstatement n (by omega)) (by omega)

/-- A program routine with a bound of twice the number of tokens reads up to an `eof` token. -/
theorem program_reads {fuel : Nat} {s : State} (hfuel : 2 * s.rest.length + 4 ≤ fuel) :
    Reads Span s (program fuel) fun ws p s' =>
      Spells (.statements s.inFunction p.statements) ws ∧ p.token = s.current ∧ s'.current.kind = .eof := by
  have hstatement := (routines_read fuel).2.1 (s.rest.length + 1) (by omega)
  refine Reads.current ?_
  refine (programStatements_reads hstatement fuel s (by omega) (by omega)).bind fun ws ss s' _ hss => ?_
  exact Reads.pure ⟨by simpa using hss.1, rfl, hss.2⟩

end ScriptLang.Parse
