import ScriptLang.Proofs.Eval.Logic

/-!
  The runs of every tree.

  A `Logic` is made of its steps and of one more fact, what becomes of a call once its arguments are bound.
  The walk through a tree is by induction on the bound on steps: the rule of a construct is met with the runs
  of its parts, which have one step less.  Along with it go the scopes that a part may use.  A statement
  that declares a name needs scopes that names may be declared in, and blocks, loops and calls open such
  scopes for their parts.
-/

namespace ScriptLang

variable {ι : Type}

/-- Steps together with calls that have bound their arguments; what is known of the body's runs need only
    hold where the budget lets the call run it. -/
structure Logic (ι : Type) extends Steps ι where
  call : ∀ {w depth scope f vs} {runBody : ι → ScopeId → List Stmt → Eval Value}, toFrame.Closures w f →
    Aligned (toFrame.Outcome false w) vs → Owns w scope →
    (budget.Calls depth → toSteps.Outcomes true w fun i => runBody i (scope i) (f i).body.statements) →
    toSteps.Answers w fun i => Rule.record (settings i) (f i) (vs i) (scope i) none >>=
      Watched.proceed (watch i) (settings i) depth (runBody i) (f i)

/-! ## Calls -/

namespace Steps

variable {S : Steps ι} {w : S.World} {depth : Nat} {scope : ι → ScopeId} {f : ι → Closure} {vs : ι → List Value}
  {runBody : ι → ScopeId → List Stmt → Eval Value}

/-- Functions that belong together are shown under one name. -/
theorem displayName_eq (hf : S.Closures w f) (i j : ι) : (f i).displayName = (f j).displayName := by
  obtain ⟨_, _, _, _⟩ := hf
  rfl

/-- Where every event of a part may be recorded, a call is recorded, then meets the limit, then runs its
    body and is recorded again. -/
theorem call_of_limit (hrecords : ∀ e, e.level = 2 → S.Records e) (hf : S.Closures w f)
    (hvs : Aligned (S.Outcome false w) vs)
    (hlimit : ∀ w' (x : ι → Eval Value), S.Later w w' → (S.budget.Calls depth → S.Answers w' x) →
      S.Answers w' fun i => S.watch i (.call depth (f i) (scope i)) >>= fun _ =>
        if (S.settings i).callLimit ≤ depth then pure (.error (.recursionLimit (f i).displayName)) else x i)
    (hbody : S.budget.Calls depth → S.Outcomes true w fun i => runBody i (scope i) (f i).body.statements) :
    S.Answers w fun i => Rule.record (S.settings i) (f i) (vs i) (scope i) none >>=
      Watched.proceed (S.watch i) (S.settings i) depth (runBody i) (f i) := by
  obtain ⟨name, hname⟩ : ∃ name, ∀ i, (f i).displayName = name := ⟨_, fun i => displayName_eq hf i S.origin⟩
  simp only [Rule.record_bind, hname]
  have hcalled : S.Holds w noError? (fun _ _ => True) fun i =>
      Eval.note (S.settings i) 2 fun _ => return .called name (← Rule.texts (vs i)) := by
    simp only [hvs.texts _ S.origin]
    refine S.note (event_of_texts (vs S.origin) name) fun e he => ?_
    obtain ⟨texts, -, rfl⟩ := shown_of_event he
    exact hrecords _ rfl
  refine step hcalled fun w₁ _ hw₁ _ => ?_
  have hrest := hlimit w₁ _ hw₁ fun hcalls =>
    recorded (unwrapped (S.later (hbody hcalls) hw₁)) (.returned name) (fun _ => rfl) fun _ => hrecords _ rfl
  simpa only [bind_assoc, pure_bind, Watched.proceed, Rule.proceed, hname] using hrest

/-- A call that no watch sees, with one limit for all runs. -/
theorem silent_limit (hwatch : ∀ i, S.watch i = .silent) (hcalls : S.budget.Calls depth)
    (hlimit : ∀ i, (S.settings i).callLimit = (S.settings S.origin).callLimit) (hf : S.Closures w f)
    {x : ι → Eval Value} (hx : S.budget.Calls depth → S.Answers w x) :
    S.Answers w fun i => S.watch i (.call depth (f i) (scope i)) >>= fun _ =>
      if (S.settings i).callLimit ≤ depth then pure (.error (.recursionLimit (f i).displayName)) else x i := by
  simp only [hwatch, Watch.silent, pure_bind, hlimit, displayName_eq hf _ S.origin]
  exact ite (pure_error _) (hx hcalls)

/-! ## Families of runs -/

section Runs

variable (S : Steps ι) (fuel depth : Nat) (scope : ι → ScopeId)

/-- The runs of an expression, each with its own settings, scope and tokens. -/
abbrev exprRuns (e : Expr) : ι → Eval Value := fun i =>
  Watched.expr (S.watch i) (S.settings i) (S.extra i + fuel) depth (scope i) (e.retoken (S.tokens i))

abbrev stmtRuns (s : Stmt) : ι → Eval Value := fun i =>
  Watched.stmt (S.watch i) (S.settings i) (S.extra i + fuel) depth (scope i) (s.retoken (S.tokens i))

abbrev blockRuns (b : Block) : ι → Eval Value := fun i =>
  Watched.block (S.watch i) (S.settings i) (S.extra i + fuel) depth (scope i) (b.retoken (S.tokens i))

abbrev applyRuns (f : ι → Closure) (vs : ι → List Value) : ι → Eval Value := fun i =>
  Watched.apply (S.watch i) (S.settings i) (S.extra i + fuel) depth (f i) (vs i)

/-- The runs of statements in order, after one with the given value. -/
abbrev bodyRuns (last : ι → Value) (ss : List Stmt) : ι → Eval Value := fun i =>
  Rule.inOrder (Watched.stmt (S.watch i) (S.settings i) (S.extra i + fuel) depth (scope i)) (last i)
    (retokenStmts (S.tokens i) ss)

end Runs

end Steps

namespace Logic

open Steps

variable {L : Logic ι} {w : L.World} {returns : Bool} {fuel depth : Nat} {scope : ι → ScopeId}

/-- A call goes through the count of its arguments and the parameters before its body can run. -/
theorem application {runBody : ι → ScopeId → List Stmt → Eval Value} {f : ι → Closure} {vs : ι → List Value}
    (hf : L.Closures w f) (hvs : Aligned (L.Outcome false w) vs)
    (hbody : ∀ w' scope, L.Later w w' → L.Owns w' scope → L.budget.Calls depth →
      L.Outcomes true w' fun i => runBody i (scope i) (f i).body.statements) :
    L.Answers w fun i => Watched.application (L.watch i) (L.settings i) depth (runBody i) (f i) (vs i) := by
  have hcopies := hf
  obtain @⟨f, number, outer, _, houter, hwithin, _⟩ := hcopies
  obtain ⟨count, hcount⟩ : ∃ count, ∀ i, (vs i).length = count := ⟨_, fun i => hvs.length i L.origin⟩
  have hparameters (i : ι) :
      (f.copy (L.tokens i) (number i) (outer i)).parameters.length = f.parameters.length := List.length_map _
  simp only [Watched.application, Rule.enter_bind, hcount, hparameters]
  refine ite (pure_error (.arity f.displayName f.parameters.length count)) ?_
  refine step (L.newScope houter) fun w₁ scope hw₁ hscope => ?_
  have hvs₁ := hvs.imp fun _ hv => hv.later hw₁
  refine step (bindArguments f.displayName hwithin.1 hscope hvs₁) fun w₂ r hw₂ hr => ?_
  have hw := L.later_trans hw₁ hw₂
  obtain ⟨refusal, rfl⟩ := hr
  cases refusal with
  | some e => exact pure_error e
  | none =>
    refine L.call (hf.later hw) (hvs.imp fun _ hv => hv.later hw) (L.owns_later hscope hw₂) fun hcalls => ?_
    exact hbody w₂ scope hw (L.owns_later hscope hw₂) hcalls

/-! ## Trees -/

/-- Up to a bound on steps the runs of every tree have the property. -/
structure Covers (L : Logic ι) (fuel : Nat) : Prop where
  expr : ∀ {w depth scope} {e : Expr}, L.Sees w scope → e.Within L.features →
    L.budget.Enough fuel depth e.height → L.Answers w (L.exprRuns fuel depth scope e)
  stmt : ∀ {w returns depth scope} {s : Stmt}, L.Sees w scope → (s.declared? ≠ none → L.Owns w scope) →
    (returns = false → s.ReturnFree) → s.Within L.features → L.budget.Enough fuel depth s.height →
    L.Outcomes returns w (L.stmtRuns fuel depth scope s)
  block : ∀ {w returns depth scope} {b : Block}, L.Sees w scope → (returns = false → b.ReturnFree) →
    b.Within L.features → L.budget.Enough fuel depth b.height →
    L.Outcomes returns w (L.blockRuns fuel depth scope b)
  apply : ∀ {w depth} {f : ι → Closure} {vs : ι → List Value}, L.Closures w f →
    Aligned (L.Outcome false w) vs → L.budget.Enough fuel depth 1 →
    L.Answers w (L.applyRuns fuel depth f vs)

/-- Without a step left every run is cut off. -/
theorem covers_zero : L.Covers 0 := by
  have cut {w : L.World} {depth height : Nat} {Q : L.World → (ι → Value) → Prop} {x : ι → Eval Value}
      (hpos : 1 ≤ height) (h : L.budget.Enough 0 depth height)
      (hx : ∀ i, L.extra i = 0 → x i = Eval.outOfFuel) : L.Holds w Value.error? Q x := by
    obtain ⟨height, rfl⟩ := Nat.exists_eq_add_of_le' hpos
    exact L.cut hx (Or.inr ⟨depth, height, h⟩)
  constructor
  · intro w depth scope e _ _ h
    refine cut e.height_pos h fun i hi => ?_
    simp only [exprRuns, hi]
    rfl
  · intro w returns depth scope s _ _ _ _ h
    refine cut s.height_pos h fun i hi => ?_
    simp only [stmtRuns, hi]
    rfl
  · intro w returns depth scope b _ _ _ h
    refine cut b.height_pos h fun i hi => ?_
    simp only [blockRuns, hi]
    rfl
  · intro w depth f vs _ _ h
    refine cut (Nat.le_refl 1) h fun i hi => ?_
    simp only [applyRuns, hi]
    rfl

/-- The body of a function literal is no higher than the literal. -/
theorem short_of_literal {height height' : Nat} (h : L.budget.Enough fuel depth height) (hle : height' ≤ height) :
    L.budget.Short height' := L.budget.short_of_le (L.budget.short h) hle

theorem Covers.expr_succ (ih : L.Covers fuel) {e : Expr} (hscope : L.Sees w scope) (he : e.Within L.features)
    (h : L.budget.Enough (fuel + 1) depth e.height) :
    L.Answers w (L.exprRuns (fuel + 1) depth scope e) := by
  have part {e' : Expr} (hlt : e'.height < e.height) (he' : e'.Within L.features) :
      L.Answers w (L.exprRuns fuel depth scope e') :=
    ih.expr hscope he' (L.budget.part h hlt)
  refine L.seen ?_
  cases e with
  | int t n | str t s | bool t b => exact pure_plain trivial nofun
  | float t x => exact pure_plain trivial fun _ => he
  | name n => exact nameValue hscope
  | before t op e =>
    refine ite (update hscope .before e) ?_
    refine unlessError (part (Nat.lt_add_one _) he) fun _ v _ hv => ?_
    simp only [hv.values.unaryOp op _ L.origin]
    exact pure_plain (unaryOp_plain op _) (hv.values.allowed L.origin).unaryOp
  | after t e op => exact update hscope .after e
  | binary t l op r =>
    refine binary (part ?_ he.1) (part ?_ he.2)
    all_goals
      simp only [Expr.height]
      omega
  | choice t c a b =>
    refine choice (part ?_ he.1) (part ?_ he.2.1) (part ?_ he.2.2)
    all_goals
      simp only [Expr.height]
      omega
  | assign t n e =>
    refine unlessError (part (Nat.lt_add_one _) he) fun _ v hw hv => ?_
    exact L.assign (L.sees_later hscope hw) hv n.text
  | function t ps r b =>
    let f : Closure := ⟨0, none, ps, r, b, 0⟩
    have hshort := short_of_literal h (Nat.le_add_right b.height 1)
    refine step L.newFunction fun w' number hw hnumber => ?_
    have hf : L.Kept w' fun i => .function (f.copy (L.tokens i) (number i) (scope i)) :=
      copies hnumber (L.sees_later hscope hw) he hshort
    exact pure_outcome (.kept hf)
  | call t callee args =>
    have hcallee : callee.height < (Expr.call t callee args).height := by
      simp only [Expr.height]
      omega
    have hargs (e : Expr) (hmem : e ∈ args) : e.height < (Expr.call t callee args).height := by
      have := height_le_exprsHeight hmem
      simp only [Expr.height]
      omega
    refine callExpression (part hcallee he.1) (fun e hmem => ?_) fun _ f vs _ hf hvs => ?_
    · exact part (hargs e hmem) (exprsWithin_iff.1 he.2 e hmem)
    · exact ih.apply hf hvs (L.budget.part h (Nat.lt_of_le_of_lt callee.height_pos hcallee))

theorem Covers.stmt_succ (ih : L.Covers fuel) {s : Stmt} (hscope : L.Sees w scope)
    (howns : s.declared? ≠ none → L.Owns w scope) (hreturns : returns = false → s.ReturnFree)
    (hs : s.Within L.features) (h : L.budget.Enough (fuel + 1) depth s.height) :
    L.Outcomes returns w (L.stmtRuns (fuel + 1) depth scope s) := by
  have expr {w : L.World} {e : Expr} {scope : ι → ScopeId} (hscope : L.Sees w scope) (hlt : e.height < s.height)
      (he : e.Within L.features) : L.Answers w (L.exprRuns fuel depth scope e) :=
    ih.expr hscope he (L.budget.part h hlt)
  have stmt {w : L.World} {s' : Stmt} {scope : ι → ScopeId} (hscope : L.Sees w scope)
      (howns : s'.declared? ≠ none → L.Owns w scope) (hreturns : returns = false → s'.ReturnFree)
      (hlt : s'.height < s.height) (hs' : s'.Within L.features) :
      L.Outcomes returns w (L.stmtRuns fuel depth scope s') :=
    ih.stmt hscope howns hreturns hs' (L.budget.part h hlt)
  have block {w : L.World} {b : Block} {scope : ι → ScopeId} (hscope : L.Sees w scope)
      (hreturns : returns = false → b.ReturnFree) (hlt : b.height < s.height) (hb : b.Within L.features) :
      L.Outcomes returns w (L.blockRuns fuel depth scope b) :=
    ih.block hscope hreturns hb (L.budget.part h hlt)
  refine L.seen ?_
  -- where there are loops a run may be cut off, so there is nothing to count in the three loops
  cases s with
  | var t n ty e =>
    cases e with
    | none => exact declaration .var (howns (Option.some_ne_none _)) pure_null
    | some e => exact declaration .var (howns (Option.some_ne_none _)) (expr hscope (Nat.lt_add_one _) hs)
  | const t n ty e => exact declaration .const (howns (Option.some_ne_none _)) (expr hscope (Nat.lt_add_one _) hs)
  | function t n ps r b =>
    exact functionDeclaration (howns (Option.some_ne_none _)) hs (short_of_literal h (Nat.le_add_right _ 1))
  | ret t e =>
    -- a `return` is run only where one is allowed
    cases returns with
    | false => exact (hreturns rfl).elim
    | true =>
      cases e with
      | none => exact pure_outcome (.returned rfl ⟨.plain trivial nofun, L.stored_plain trivial rfl⟩)
      | some e => exact returning (expr hscope (Nat.lt_add_one _) hs)
  | expr t e => exact Outcomes.of_answers (expr hscope (Nat.lt_add_one _) hs)
  | display t es =>
    refine display fun e he => expr hscope ?_ (exprsWithin_iff.1 hs e he)
    exact Nat.lt_add_one_of_le (height_le_exprsHeight he)
  | block b => exact block hscope hreturns (Nat.lt_add_one _) hs
  | branch t c a b =>
    have hc : c.height < (Stmt.branch t c a b).height := by
      simp only [Stmt.height]
      omega
    have ha : a.height < (Stmt.branch t c a b).height := by
      simp only [Stmt.height]
      omega
    refine branch (expr hscope hc hs.1) (block hscope (fun hr => (hreturns hr).1) ha hs.2.1) ?_
    cases b with
    | none => exact pure_null
    | some s =>
      -- an `else if` declares nothing, but the tree could hold a declaration here
      refine stmt hscope howns (fun hr => (hreturns hr).2) ?_ hs.2.2
      simp only [Stmt.height, stmtHeight?]
      omega
  | whileLoop t c b =>
    obtain ⟨hloops, hc, hb⟩ := hs
    refine loop hloops (verdict (expr hscope ?_ hc)) (iteration .whileLoop (block hscope hreturns ?_ hb))
      pure_null fuel 0
    all_goals
      simp only [Stmt.height]
      omega
  | doLoop t b c =>
    obtain ⟨hloops, hc, hb⟩ := hs
    refine loopAfter hloops (iteration .doLoop (block hscope hreturns ?_ hb)) (verdict (expr hscope ?_ hc)) fuel 0
    all_goals
      simp only [Stmt.height]
      omega
  | forLoop t init test update b =>
    obtain ⟨hloops, hinit, htest, hupdate, hb⟩ := hs
    refine step (L.newScope hscope) fun w₁ inner _ hinner => ?_
    refine afterOutcome (r := returns) ?_ fun w₂ _ hw₂ _ _ => ?_
    · cases init with
      | none => exact pure_null
      | some s =>
        refine stmt (L.owns_sees hinner) (fun _ => hinner) (fun hr => (hreturns hr).1) ?_ hinit
        simp only [Stmt.height, stmtHeight?]
        omega
    have hinner := L.sees_later (L.owns_sees hinner) hw₂
    refine loop hloops ?_ (iteration .forLoop (block hinner (fun hr => (hreturns hr).2) ?_ hb)) ?_ fuel 0
    · cases test with
      | none => exact goOn
      | some e =>
        refine verdict (expr hinner ?_ htest)
        simp only [Stmt.height, exprHeight?]
        omega
    · simp only [Stmt.height]
      omega
    · cases update with
      | none => exact pure_null
      | some e =>
        refine expr hinner ?_ hupdate
        simp only [Stmt.height, exprHeight?]
        omega

theorem Covers.inOrder (ih : L.Covers fuel) {last : ι → Value} {ss : List Stmt} (hscope : L.Owns w scope)
    (hlast : L.Outcome returns w last) (hreturns : returns = false → stmtsReturnFree ss)
    (hss : ∀ s ∈ ss, s.Within L.features) (h : ∀ s ∈ ss, L.budget.Enough fuel depth s.height) :
    L.Outcomes returns w (L.bodyRuns fuel depth scope last ss) := by
  refine Steps.inOrder (fun s hs => ?_) hlast
  exact ih.stmt (L.owns_sees hscope) (fun _ => hscope) (fun hr => stmtsReturnFree_iff.1 (hreturns hr) s hs)
    (hss s hs) (h s hs)

theorem Covers.block_succ (ih : L.Covers fuel) {b : Block} (hscope : L.Sees w scope)
    (hreturns : returns = false → b.ReturnFree) (hb : b.Within L.features)
    (h : L.budget.Enough (fuel + 1) depth b.height) :
    L.Outcomes returns w (L.blockRuns (fuel + 1) depth scope b) := by
  refine L.seen (step (L.newScope hscope) fun _ inner _ hinner => ?_)
  simp only [Block.statements_retoken]
  refine ih.inOrder hinner Frame.outcome_null (fun hr => stmtsReturnFree_iff.2 (hreturns hr).statements)
    hb.statements fun s hs => L.budget.part h ?_
  rw [b.height_eq]
  exact Nat.lt_add_one_of_le (height_le_stmtsHeight hs)

theorem Covers.apply_succ (ih : L.Covers fuel) {f : ι → Closure} {vs : ι → List Value} (hf : L.Closures w f)
    (hvs : Aligned (L.Outcome false w) vs) (h : L.budget.Enough (fuel + 1) depth 1) :
    L.Answers w (L.applyRuns (fuel + 1) depth f vs) := by
  refine L.seen (application hf hvs fun w' scope _ hscope hcalls => ?_)
  obtain @⟨f, number, outer, _, _, hwithin, hshort⟩ := hf
  have hstatements (i : ι) : (f.copy (L.tokens i) (number i) (outer i)).body.statements =
      retokenStmts (L.tokens i) f.body.statements := f.body.statements_retoken _
  simp only [hstatements]
  -- the body is run one call deeper, and its height counts anew
  refine ih.inOrder hscope Frame.outcome_null nofun hwithin.2.statements fun s hs => L.budget.body h hcalls ?_
  refine L.budget.short_of_le hshort ?_
  rw [f.body.height_eq]
  exact Nat.le_succ_of_le (height_le_stmtsHeight hs)

/-- By induction on the bound on steps. -/
theorem covers (L : Logic ι) (fuel : Nat) : L.Covers fuel := by
  induction fuel with
  | zero => exact covers_zero
  | succ fuel ih => exact ⟨ih.expr_succ, ih.stmt_succ, ih.block_succ, ih.apply_succ⟩

/-! ## Programs -/

section Programs

variable {p : Program}

/-- The runs of every program have the property. -/
theorem program (hscope : L.Owns w scope) (hp : p.Within L.features)
    (h : ∀ s ∈ p.statements, L.budget.Enough fuel 0 s.height) :
    L.Answers w fun i =>
      Watched.program (L.watch i) (L.settings i) (L.extra i + fuel) (scope i) (p.retoken (L.tokens i)) := by
  have hbody : L.Outcomes true w (L.bodyRuns fuel 0 scope (fun _ => .null) p.statements) :=
    (L.covers fuel).inOrder hscope Frame.outcome_null nofun (stmtsWithin_iff.1 hp) h
  exact unwrapped hbody

/-- So do the runs with the start and the result on record. -/
theorem runProgram (hrecords : ∀ e, e.level = 1 → L.Records e) (hscope : L.Owns w scope)
    (hp : p.Within L.features) (h : ∀ s ∈ p.statements, L.budget.Enough fuel 0 s.height) :
    L.Answers w fun i =>
      Watched.runProgram (L.watch i) (L.settings i) (L.extra i + fuel) (scope i) (p.retoken (L.tokens i)) := by
  have hlength (i : ι) : (p.retoken (L.tokens i)).statements.length = p.statements.length :=
    (congrArg List.length (retokenStmts_eq_map _ p.statements)).trans (List.length_map _)
  simp only [Watched.runProgram, hlength]
  refine step (L.note (Or.inl ⟨_, rfl, rfl⟩) fun e he => ?_) fun _ _ hw _ => ?_
  · cases he
    exact hrecords _ rfl
  · exact recorded (program (L.owns_later hscope hw) hp h) .finished (fun _ => rfl) fun _ => hrecords _ rfl

end Programs

end Logic

end ScriptLang
