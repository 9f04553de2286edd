import ScriptLang.Tree

/-!
  Trees with other tokens.

  Every node of a tree keeps a token.  `retoken τ` puts `τ t` in the place of each token `t` and leaves the
  rest of the tree alone.  Two such changes make one, and no change is none; `unplaced` is the change
  that forgets where a token stands and keeps its kind and its spelling.
-/

namespace ScriptLang

/-- A token without its place. -/
def Token.unplaced (t : Token) : Token := { t with line := 0, column := 0 }

def TypeName.retoken (τ : Token → Token) (t : TypeName) : TypeName := ⟨τ t.token, t.name⟩

def Name.retoken (τ : Token → Token) (n : Name) : Name := ⟨τ n.token, n.text⟩

def Parameter.retoken (τ : Token → Token) (p : Parameter) : Parameter :=
  ⟨τ p.token, p.name.retoken τ, p.declared.retoken τ⟩

mutual

def Expr.retoken (τ : Token → Token) : Expr → Expr
  | .name n => .name (n.retoken τ)
  | .int t value => .int (τ t) value
  | .float t value => .float (τ t) value
  | .str t value => .str (τ t) value
  | .bool t value => .bool (τ t) value
  | .before t op operand => .before (τ t) op (operand.retoken τ)
  | .after t operand op => .after (τ t) (operand.retoken τ) op
  | .binary t left op right => .binary (τ t) (left.retoken τ) op (right.retoken τ)
  | .choice t test onTrue onFalse =>
    .choice (τ t) (test.retoken τ) (onTrue.retoken τ) (onFalse.retoken τ)
  | .assign t target value => .assign (τ t) (target.retoken τ) (value.retoken τ)
  | .call t callee arguments => .call (τ t) (callee.retoken τ) (retokenExprs τ arguments)
  | .function t parameters returns body =>
    .function (τ t) (parameters.map (Parameter.retoken τ)) (returns.retoken τ) (body.retoken τ)

def retokenExprs (τ : Token → Token) : List Expr → List Expr
  | [] => []
  | e :: es => e.retoken τ :: retokenExprs τ es

def retokenExpr? (τ : Token → Token) : Option Expr → Option Expr
  | none => none
  | some e => some (e.retoken τ)

def Block.retoken (τ : Token → Token) : Block → Block
  | .mk t statements => .mk (τ t) (retokenStmts τ statements)

def Stmt.retoken (τ : Token → Token) : Stmt → Stmt
  | .var t name declared value =>
    .var (τ t) (name.retoken τ) (declared.map (TypeName.retoken τ)) (retokenExpr? τ value)
  | .const t name declared value =>
    .const (τ t) (name.retoken τ) (declared.map (TypeName.retoken τ)) (value.retoken τ)
  | .ret t value => .ret (τ t) (retokenExpr? τ value)
  | .expr t value => .expr (τ t) (value.retoken τ)
  | .block body => .block (body.retoken τ)
  | .branch t test onTrue onFalse =>
    .branch (τ t) (test.retoken τ) (onTrue.retoken τ) (retokenStmt? τ onFalse)
  | .forLoop t init test update body =>
    .forLoop (τ t) (retokenStmt? τ init) (retokenExpr? τ test) (retokenExpr? τ update) (body.retoken τ)
  | .whileLoop t test body => .whileLoop (τ t) (test.retoken τ) (body.retoken τ)
  | .doLoop t body test => .doLoop (τ t) (body.retoken τ) (test.retoken τ)
  | .function t name parameters returns body =>
    .function (τ t) (name.retoken τ) (parameters.map (Parameter.retoken τ)) (returns.retoken τ)
      (body.retoken τ)
  | .display t arguments => .display (τ t) (retokenExprs τ arguments)

def retokenStmts (τ : Token → Token) : List Stmt → List Stmt
  | [] => []
  | s :: ss => s.retoken τ :: retokenStmts τ ss

def retokenStmt? (τ : Token → Token) : Option Stmt → Option Stmt
  | none => none
  | some s => some (s.retoken τ)

end

def Program.retoken (τ : Token → Token) (p : Program) : Program := ⟨τ p.token, retokenStmts τ p.statements⟩

section Lists

variable (τ : Token → Token)

theorem retokenExprs_eq_map (es : List Expr) : retokenExprs τ es = es.map (Expr.retoken τ) := by
  induction es with
  | nil => rfl
  | cons e es ih => simp [retokenExprs, ih]

theorem retokenStmts_eq_map (ss : List Stmt) : retokenStmts τ ss = ss.map (Stmt.retoken τ) := by
  induction ss with
  | nil => rfl
  | cons s ss ih => simp [retokenStmts, ih]

theorem Block.statements_retoken (b : Block) : (b.retoken τ).statements = retokenStmts τ b.statements := by
  cases b
  rfl

end Lists

/-! ## No change -/

theorem Parameter.retoken_id : Parameter.retoken id = id := rfl

theorem TypeName.retoken_id : TypeName.retoken id = id := rfl

mutual

theorem Expr.retoken_id : (e : Expr) → e.retoken id = e
  | .name _ | .int .. | .float .. | .str .. | .bool .. => rfl
  | .before _ _ operand => by simp [Expr.retoken, operand.retoken_id]
  | .after _ operand _ => by simp [Expr.retoken, operand.retoken_id]
  | .binary _ left _ right => by simp [Expr.retoken, left.retoken_id, right.retoken_id]
  | .choice _ test onTrue onFalse => by
    simp [Expr.retoken, test.retoken_id, onTrue.retoken_id, onFalse.retoken_id]
  | .assign _ _ value => by simp [Expr.retoken, value.retoken_id, Name.retoken]
  | .call _ callee arguments => by simp [Expr.retoken, callee.retoken_id, retokenExprs_id arguments]
  | .function _ _ _ body => by
    simp [Expr.retoken, body.retoken_id, Parameter.retoken_id, TypeName.retoken_id]

theorem retokenExprs_id : (es : List Expr) → retokenExprs id es = es
  | [] => rfl
  | e :: es => by simp [retokenExprs, e.retoken_id, retokenExprs_id es]

theorem retokenExpr?_id : (e : Option Expr) → retokenExpr? id e = e
  | none => rfl
  | some e => by simp [retokenExpr?, e.retoken_id]

theorem Block.retoken_id : (b : Block) → b.retoken id = b
  | .mk _ statements => by simp [Block.retoken, retokenStmts_id statements]

theorem Stmt.retoken_id : (s : Stmt) → s.retoken id = s
  | .var _ _ _ value => by
    simp [Stmt.retoken, Name.retoken, TypeName.retoken_id, retokenExpr?_id value]
  | .const _ _ _ value => by simp [Stmt.retoken, Name.retoken, TypeName.retoken_id, value.retoken_id]
  | .ret _ value => by simp [Stmt.retoken, retokenExpr?_id value]
  | .expr _ value => by simp [Stmt.retoken, value.retoken_id]
  | .block body => by simp [Stmt.retoken, body.retoken_id]
  | .branch _ test onTrue onFalse => by
    simp [Stmt.retoken, test.retoken_id, onTrue.retoken_id, retokenStmt?_id onFalse]
  | .forLoop _ init test update body => by
    simp [Stmt.retoken, retokenStmt?_id init, retokenExpr?_id test, retokenExpr?_id update, body.retoken_id]
  | .whileLoop _ test body => by simp [Stmt.retoken, test.retoken_id, body.retoken_id]
  | .doLoop _ body test => by simp [Stmt.retoken, test.retoken_id, body.retoken_id]
  | .function _ _ _ _ body => by
    simp [Stmt.retoken, Name.retoken, body.retoken_id, Parameter.retoken_id, TypeName.retoken_id]
  | .display _ arguments => by simp [Stmt.retoken, retokenExprs_id arguments]

theorem retokenStmts_id : (ss : List Stmt) → retokenStmts id ss = ss
  | [] => rfl
  | s :: ss => by simp [retokenStmts, s.retoken_id, retokenStmts_id ss]

theorem retokenStmt?_id : (s : Option Stmt) → retokenStmt? id s = s
  | none => rfl
  | some s => by simp [retokenStmt?, s.retoken_id]

end

theorem Program.retoken_id (p : Program) : p.retoken id = p := by simp [Program.retoken, retokenStmts_id]

/-! ## Two changes -/

section Twice

variable {τ τ' : Token → Token}

theorem Parameter.retoken_comp : Parameter.retoken τ' ∘ Parameter.retoken τ = Parameter.retoken (τ' ∘ τ) := rfl

theorem TypeName.retoken_comp : TypeName.retoken τ' ∘ TypeName.retoken τ = TypeName.retoken (τ' ∘ τ) := rfl

theorem TypeName.retoken_retoken (t : TypeName) : (t.retoken τ).retoken τ' = t.retoken (τ' ∘ τ) := rfl

theorem Name.retoken_retoken (n : Name) : (n.retoken τ).retoken τ' = n.retoken (τ' ∘ τ) := rfl

mutual

theorem Expr.retoken_retoken : (e : Expr) → (e.retoken τ).retoken τ' = e.retoken (τ' ∘ τ)
  | .name _ | .int .. | .float .. | .str .. | .bool .. => rfl
  | .before _ _ operand => by simp [Expr.retoken, operand.retoken_retoken]
  | .after _ operand _ => by simp [Expr.retoken, operand.retoken_retoken]
  | .binary _ left _ right => by simp [Expr.retoken, left.retoken_retoken, right.retoken_retoken]
  | .choice _ test onTrue onFalse => by
    simp [Expr.retoken, test.retoken_retoken, onTrue.retoken_retoken, onFalse.retoken_retoken]
  | .assign _ target value => by simp [Expr.retoken, value.retoken_retoken, target.retoken_retoken]
  | .call _ callee arguments => by
    simp [Expr.retoken, callee.retoken_retoken, retokenExprs_retoken arguments]
  | .function _ _ returns body => by
    simp [Expr.retoken, body.retoken_retoken, returns.retoken_retoken, Parameter.retoken_comp]

theorem retokenExprs_retoken : (es : List Expr) → retokenExprs τ' (retokenExprs τ es) = retokenExprs (τ' ∘ τ) es
  | [] => rfl
  | e :: es => by simp [retokenExprs, e.retoken_retoken, retokenExprs_retoken es]

theorem retokenExpr?_retoken : (e : Option Expr) →
    retokenExpr? τ' (retokenExpr? τ e) = retokenExpr? (τ' ∘ τ) e
  | none => rfl
  | some e => by simp [retokenExpr?, e.retoken_retoken]

theorem Block.retoken_retoken : (b : Block) → (b.retoken τ).retoken τ' = b.retoken (τ' ∘ τ)
  | .mk _ statements => by simp [Block.retoken, retokenStmts_retoken statements]

theorem Stmt.retoken_retoken : (s : Stmt) → (s.retoken τ).retoken τ' = s.retoken (τ' ∘ τ)
  | .var _ name _ value => by
    simp [Stmt.retoken, name.retoken_retoken, TypeName.retoken_comp, retokenExpr?_retoken value]
  | .const _ name _ value => by
    simp [Stmt.retoken, name.retoken_retoken, TypeName.retoken_comp, value.retoken_retoken]
  | .ret _ value => by simp [Stmt.retoken, retokenExpr?_retoken value]
  | .expr _ value => by simp [Stmt.retoken, value.retoken_retoken]
  | .block body => by simp [Stmt.retoken, body.retoken_retoken]
  | .branch _ test onTrue onFalse => by
    simp [Stmt.retoken, test.retoken_retoken, onTrue.retoken_retoken, retokenStmt?_retoken onFalse]
  | .forLoop _ init test update body => by
    simp [Stmt.retoken, retokenStmt?_retoken init, retokenExpr?_retoken test, retokenExpr?_retoken update,
      body.retoken_retoken]
  | .whileLoop _ test body => by simp [Stmt.retoken, test.retoken_retoken, body.retoken_retoken]
  | .doLoop _ body test => by simp [Stmt.retoken, test.retoken_retoken, body.retoken_retoken]
  | .function _ name _ returns body => by
    simp [Stmt.retoken, name.retoken_retoken, returns.retoken_retoken, body.retoken_retoken,
      Parameter.retoken_comp]
  | .display _ arguments => by simp [Stmt.retoken, retokenExprs_retoken arguments]

theorem retokenStmts_retoken : (ss : List Stmt) → retokenStmts τ' (retokenStmts τ ss) = retokenStmts (τ' ∘ τ) ss
  | [] => rfl
  | s :: ss => by simp [retokenStmts, s.retoken_retoken, retokenStmts_retoken ss]

theorem retokenStmt?_retoken : (s : Option Stmt) →
    retokenStmt? τ' (retokenStmt? τ s) = retokenStmt? (τ' ∘ τ) s
  | none => rfl
  | some s => by simp [retokenStmt?, s.retoken_retoken]

end

end Twice

/-! ## What does not change -/

theorem declaredSignature_retoken (τ : Token → Token) (ps : List Parameter) (returns : TypeName) :
    declaredSignature (ps.map (Parameter.retoken τ)) (returns.retoken τ) = declaredSignature ps returns := by
  unfold declaredSignature
  rw [List.map_map]
  rfl

end ScriptLang
