import ScriptLang.Proofs.Parse.Grammar

/-!
  The first token of a phrase.

  A routine decides by the next token which phrase it reads.  `Begins` says which tokens a phrase of each
  category can begin with; a phrase that has to be told from what may stand in its place begins with
  a token that nothing else there does.
-/

namespace ScriptLang

/-- There is a first token, of a kind that satisfies `P`. -/
def Leads (P : TokenKind → Prop) : List Token → Prop
  | [] => False
  | t :: _ => P t.kind

namespace Leads

variable {P Q : TokenKind → Prop} {us : List Token}

theorem append (h : Leads P us) (vs : List Token) : Leads P (us ++ vs) := by
  cases us with
  | nil => exact h.elim
  | cons t us => exact h

theorem mono (h : Leads P us) (himp : ∀ k, P k → Q k) : Leads Q us := by
  cases us with
  | nil => exact h.elim
  | cons t us => exact himp t.kind h

/-- What leads is there. -/
theorem exists_cons (h : Leads P us) : ∃ t us', us = t :: us' ∧ P t.kind := by
  cases us with
  | nil => exact h.elim
  | cons t us => exact ⟨t, us, rfl, h⟩

theorem mem_of_eq {ks : List TokenKind} {k : TokenKind} (h : Leads (· = k) us) (hk : k ∈ ks) :
    Leads (· ∈ ks) us :=
  h.mono fun _ heq => heq ▸ hk

theorem ne_of_mem {ks : List TokenKind} {k : TokenKind} (h : Leads (· ∈ ks) us) (hk : k ∉ ks) :
    Leads (· ≠ k) us :=
  h.mono fun _ hmem heq => hk (heq ▸ hmem)

end Leads

/-- The tokens an expression begins with. -/
def exprFirst : List TokenKind :=
  [.ident, .int, .float, .string, .boolean, .bang, .minus, .increment, .decrement, .lparen, .fnWord]

/-- The tokens that a statement begins with if it is not an expression. -/
def keywordFirst : List TokenKind :=
  [.varWord, .constWord, .ifWord, .forWord, .whileWord, .doWord, .fnWord, .returnWord, .displayWord,
   .lbrace]

/-- The tokens begin as an expression does.  A function without a name is told from a declaration by the
    parenthesis behind its `fn`. -/
def ExprBegins (us : List Token) : Prop :=
  Leads (· ∈ exprFirst) us ∧ (Leads (· = .fnWord) us → Leads (· = .lparen) us.tail)

namespace ExprBegins

theorem append {us : List Token} (h : ExprBegins us) (vs : List Token) : ExprBegins (us ++ vs) := by
  obtain ⟨t, us, rfl, hk⟩ := h.1.exists_cons
  exact ⟨hk, fun hfn => (h.2 hfn).append vs⟩

theorem of_kind {t : Token} {us : List Token} (h : t.kind ∈ exprFirst) (hfn : t.kind ≠ .fnWord) :
    ExprBegins (t :: us) := ⟨h, fun h' => absurd h' hfn⟩

end ExprBegins

/-- The tokens begin as a phrase of the category does; nothing is said of phrases that may be empty. -/
def Begins : Phrase → List Token → Prop
  | .typeName _, us => Leads (fun k => k = .fnWord ∨ k.isTypeWord) us
  | .parameter _, us => Leads (· = .ident) us
  | .target _, us | .atom _, us | .applied _, us | .tier _ _, us | .expr _, us => ExprBegins us
  | .tail _ _, us => Leads (· = .lparen) us
  | .varDecl _, us => Leads (· = .varWord) us
  | .branch _ _, us => Leads (· = .ifWord) us
  | .block _ _, us => Leads (· = .lbrace) us
  | .statement _ _, us => Leads (· ∈ keywordFirst ++ exprFirst) us
  | _, _ => True

namespace Spells

/-- By induction on the rules of the grammar. -/
theorem begins {ph : Phrase} {us : List Token} (h : Spells ph us) : Begins ph us := by
  induction h with
  | typeWord hk => exact Or.inr hk
  | functionType hk => exact Or.inl hk
  | parameter hk | tail hk => exact hk
  | target hk | name hk => exact ExprBegins.of_kind (by rw [hk]; decide) (by rw [hk]; decide)
  | int hk | float hk => exact ExprBegins.of_kind (by rw [hk]; decide) (by rw [hk]; decide)
  | str hk | bool hk => exact ExprBegins.of_kind (by rw [hk]; decide) (by rw [hk]; decide)
  | parenTarget hk | paren hk => exact ExprBegins.of_kind (by rw [hk]; decide) (by rw [hk]; decide)
  | function hk _ ih => exact ⟨by show _ ∈ _; rw [hk]; decide, fun _ => ih⟩
  | atom _ ih | applied _ ih | tier _ ih | tighter _ _ ih => exact ih
  | before hk =>
    have hall : ∀ k ∈ operatorsBefore, k ∈ exprFirst ∧ k ≠ .fnWord := by decide
    exact ExprBegins.of_kind (hall _ hk).1 (hall _ hk).2
  | after _ _ ih => exact ih.append _
  | call _ _ _ _ ih _ => exact (ih.append _).append _
  | binary _ _ _ ih _ => exact ih.append _
  | choice _ _ _ _ _ ih _ _ => exact (ih.append _).append _
  | assign _ _ _ ih _ => exact ih.append _
  | varValue hk | varType hk => exact hk
  | branchOnly hk | branchElse hk | branchChain hk | block hk => exact hk
  | var _ ih => exact Leads.mem_of_eq (k := .varWord) ih (by decide)
  | branch _ ih => exact Leads.mem_of_eq (k := .ifWord) ih (by decide)
  | nested _ ih => exact Leads.mem_of_eq (k := .lbrace) ih (by decide)
  | const hk | forLoop hk | whileLoop hk | doLoop hk | functionNamed hk | ret hk | display hk =>
    show _ ∈ _
    rw [hk]
    decide
  | exprOnly _ _ ih => exact List.mem_append_right _ ih.1
  | _ => trivial

section Leads

variable {us : List Token} {e : Expr}

theorem typeName_leads {t : TypeName} (h : Spells (.typeName t) us) : Leads (· ≠ .rparen) us := by
  have hbegins : Leads (fun k => k = .fnWord ∨ k.isTypeWord) us := h.begins
  refine hbegins.mono fun k hk heq => ?_
  rw [heq] at hk
  exact absurd hk (by decide)

theorem parameter_leads {p : Parameter} (h : Spells (.parameter p) us) : Leads (· ≠ .rparen) us := by
  have hbegins : Leads (· = .ident) us := h.begins
  exact hbegins.mono fun k hk => by rw [hk]; decide

theorem target_leads {n : Name} (h : Spells (.target n) us) : Leads (· ∈ exprFirst) us := h.begins.1

theorem applied_leads (h : Spells (.applied e) us) : Leads (· ∈ exprFirst) us := h.begins.1

theorem tier_leads {k : Nat} (h : Spells (.tier k e) us) : Leads (· ∈ exprFirst) us := h.begins.1

theorem expr_leads (h : Spells (.expr e) us) : Leads (· ∈ exprFirst) us := h.begins.1

theorem varDecl_leads {s : Stmt} (h : Spells (.varDecl s) us) : Leads (· = .varWord) us := h.begins

theorem branch_leads {f : Bool} {s : Stmt} (h : Spells (.branch f s) us) : Leads (· = .ifWord) us :=
  h.begins

theorem block_leads {f : Bool} {b : Block} (h : Spells (.block f b) us) : Leads (· = .lbrace) us :=
  h.begins

/-- A statement begins with its keyword, or as an expression does. -/
theorem statement_leads {f : Bool} {s : Stmt} (h : Spells (.statement f s) us) :
    Leads (· ∈ keywordFirst ++ exprFirst) us := h.begins

/-- No list of statements begins with an `else`, so the one behind a branch belongs to it. -/
theorem statements_leads {f : Bool} {ss : List Stmt} (h : Spells (.statements f ss) us) :
    us = [] ∨ Leads (· ≠ .elseWord) us := by
  cases h with
  | noStatements => exact Or.inl rfl
  | empty hsc => exact Or.inr (by show _ ≠ _; rw [hsc]; decide)
  | cons hst => exact Or.inr ((hst.statement_leads.ne_of_mem (by decide)).append _)

/-- The first part of a loop has its semicolon at least. -/
theorem init_ne_nil {i : Option Stmt} (h : Spells (.init i) us) : us ≠ [] := by
  cases h with
  | noInit => exact List.cons_ne_nil _ _
  | varInit h =>
    obtain ⟨t, us, rfl, -⟩ := h.varDecl_leads.exists_cons
    exact List.cons_ne_nil _ _
  | exprInit => exact List.cons_ne_nil _ _

end Leads

end Spells

end ScriptLang
