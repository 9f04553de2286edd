import ScriptLang.Tree.Infer
import ScriptLang.Tree.Text

/-!
  Trees without their tokens.

  Two trees are the same up to tokens if they have the same bare tree: the same nodes with the same
  names, operators, values, types and optional parts.  A number literal keeps its spelling.  The printed
  form and the type of a literal are read off the bare tree.
-/

namespace ScriptLang

/-- What stands in the place of a token. -/
def Token.absent : Token := ⟨.eof, "", 0, 0⟩

/-- The spelling of a token on its own. -/
def Token.spelled (t : Token) : Token := { Token.absent with literal := t.literal }

def TypeName.bare (t : TypeName) : TypeName := ⟨.absent, t.name⟩

def Name.bare (n : Name) : Name := ⟨.absent, n.text⟩

def Parameter.bare (p : Parameter) : Parameter := ⟨.absent, p.name.bare, p.declared.bare⟩

mutual

def Expr.bare : Expr → Expr
  | .name n => .name n.bare
  | .int t value => .int t.spelled value
  | .float t value => .float t.spelled value
  | .str _ value => .str .absent value
  | .bool _ value => .bool .absent value
  | .before _ op operand => .before .absent op operand.bare
  | .after _ operand op => .after .absent operand.bare op
  | .binary _ left op right => .binary .absent left.bare op right.bare
  | .choice _ test onTrue onFalse => .choice .absent test.bare onTrue.bare onFalse.bare
  | .assign _ target value => .assign .absent target.bare value.bare
  | .call _ callee arguments => .call .absent callee.bare (bareExprs arguments)
  | .function _ parameters returns body =>
    .function .absent (parameters.map Parameter.bare) returns.bare body.bare

def bareExprs : List Expr → List Expr
  | [] => []
  | e :: es => e.bare :: bareExprs es

def bareExpr? : Option Expr → Option Expr
  | none => none
  | some e => some e.bare

def Block.bare : Block → Block
  | .mk _ statements => .mk .absent (bareStmts statements)

def Stmt.bare : Stmt → Stmt
  | .var _ name declared value =>
    .var .absent name.bare (declared.map TypeName.bare) (bareExpr? value)
  | .const _ name declared value => .const .absent name.bare (declared.map TypeName.bare) value.bare
  | .ret _ value => .ret .absent (bareExpr? value)
  | .expr _ value => .expr .absent value.bare
  | .block body => .block body.bare
  | .branch _ test onTrue onFalse => .branch .absent test.bare onTrue.bare (bareStmt? onFalse)
  | .forLoop _ init test update body =>
    .forLoop .absent (bareStmt? init) (bareExpr? test) (bareExpr? update) body.bare
  | .whileLoop _ test body => .whileLoop .absent test.bare body.bare
  | .doLoop _ body test => .doLoop .absent body.bare test.bare
  | .function _ name parameters returns body =>
    .function .absent name.bare (parameters.map Parameter.bare) returns.bare body.bare
  | .display _ arguments => .display .absent (bareExprs arguments)

def bareStmts : List Stmt → List Stmt
  | [] => []
  | s :: ss => s.bare :: bareStmts ss

def bareStmt? : Option Stmt → Option Stmt
  | none => none
  | some s => some s.bare

end

def Program.bare (p : Program) : Program := ⟨.absent, bareStmts p.statements⟩

theorem bareExprs_eq_map (es : List Expr) : bareExprs es = es.map Expr.bare := by
  induction es with
  | nil => rfl
  | cons e es ih => simp [bareExprs, ih]

/-! ## What the bare tree determines -/

theorem headText_bare (parameters : List Parameter) (returns : TypeName) :
    headText (parameters.map Parameter.bare) returns.bare = headText parameters returns := by
  have htext : Parameter.text ∘ Parameter.bare = Parameter.text := rfl
  simp [headText, TypeName.bare, htext]

theorem declaredText_bare (declared : Option TypeName) :
    declaredText (declared.map TypeName.bare) = declaredText declared := by
  cases declared <;> rfl

mutual

theorem Expr.text_bare : (e : Expr) → e.bare.text = e.text
  | .name _ | .int .. | .float .. | .str .. | .bool .. => rfl
  | .before _ _ operand => by simp [Expr.bare, Expr.text, operand.text_bare]
  | .after _ operand _ => by simp [Expr.bare, Expr.text, operand.text_bare]
  | .binary _ left _ right => by simp [Expr.bare, Expr.text, left.text_bare, right.text_bare]
  | .choice _ test onTrue onFalse => by
    simp [Expr.bare, Expr.text, test.text_bare, onTrue.text_bare, onFalse.text_bare]
  | .assign _ _ value => by simp [Expr.bare, Expr.text, value.text_bare, Name.bare]
  | .call _ callee arguments => by
    simp [Expr.bare, Expr.text, callee.text_bare, exprTexts_bare arguments]
  | .function _ _ _ body => by simp [Expr.bare, Expr.text, body.text_bare, headText_bare]

theorem exprTexts_bare : (es : List Expr) → exprTexts (bareExprs es) = exprTexts es
  | [] => rfl
  | e :: es => by simp [bareExprs, exprTexts, e.text_bare, exprTexts_bare es]

theorem Block.text_bare : (b : Block) → b.bare.text = b.text
  | .mk _ [] => rfl
  | .mk _ (s :: ss) => by simp [Block.bare, bareStmts, Block.text, s.text_bare, stmtTexts_bare ss]

theorem Stmt.text_bare : (s : Stmt) → s.bare.text = s.text
  | .var _ _ _ none => by simp [Stmt.bare, bareExpr?, Stmt.text, declaredText_bare, Name.bare]
  | .var _ _ _ (some value) => by
    simp [Stmt.bare, bareExpr?, Stmt.text, declaredText_bare, Name.bare, value.text_bare]
  | .const _ _ _ value => by
    simp [Stmt.bare, Stmt.text, declaredText_bare, Name.bare, value.text_bare]
  | .ret _ none => rfl
  | .ret _ (some value) => by simp [Stmt.bare, bareExpr?, Stmt.text, value.text_bare]
  | .expr _ value => by simp [Stmt.bare, Stmt.text, value.text_bare]
  | .block body => by simp [Stmt.bare, Stmt.text, body.text_bare]
  | .branch _ test onTrue none => by
    simp [Stmt.bare, bareStmt?, Stmt.text, test.text_bare, onTrue.text_bare]
  | .branch _ test onTrue (some onFalse) => by
    simp [Stmt.bare, bareStmt?, Stmt.text, test.text_bare, onTrue.text_bare, onFalse.text_bare]
  | .forLoop _ init test update body => by
    simp [Stmt.bare, Stmt.text, body.text_bare, initText_bare init, testText_bare test,
      updateText_bare update]
  | .whileLoop _ test body => by simp [Stmt.bare, Stmt.text, test.text_bare, body.text_bare]
  | .doLoop _ body test => by simp [Stmt.bare, Stmt.text, test.text_bare, body.text_bare]
  | .function _ _ _ _ body => by
    simp [Stmt.bare, Stmt.text, body.text_bare, headText_bare, Name.bare]
  | .display _ arguments => by simp [Stmt.bare, Stmt.text, exprTexts_bare arguments]

theorem initText_bare : (init : Option Stmt) → initText (bareStmt? init) = initText init
  | none => rfl
  | some s => by simp [bareStmt?, initText, s.text_bare]

theorem testText_bare : (test : Option Expr) → testText (bareExpr? test) = testText test
  | none => rfl
  | some e => by simp [bareExpr?, testText, e.text_bare]

theorem updateText_bare : (update : Option Expr) → updateText (bareExpr? update) = updateText update
  | none => rfl
  | some e => by simp [bareExpr?, updateText, e.text_bare]

theorem stmtTexts_bare : (ss : List Stmt) → stmtTexts (bareStmts ss) = stmtTexts ss
  | [] => rfl
  | s :: ss => by simp [bareStmts, stmtTexts, s.text_bare, stmtTexts_bare ss]

end

/-- Programs that are the same up to tokens print alike. -/
theorem Program.text_bare (p : Program) : p.bare.text = p.text := by
  simp [Program.bare, Program.text, stmtTexts_bare]

/-- Literals that are the same up to tokens have the same type. -/
theorem Expr.literalType?_bare (e : Expr) :
    e.bare.literalType?.map TypeName.bare = e.literalType?.map TypeName.bare := by
  cases e with
  | function t parameters returns body =>
    simp [Expr.bare, Expr.literalType?, TypeName.bare, TypeName.inferredAt, declaredSignature,
      Parameter.bare, Function.comp_def]
  | before t op operand =>
    cases operand with
    | int | float =>
      simp only [Expr.bare, Expr.literalType?]
      split <;> rfl
    | _ => rfl
  | _ => rfl

end ScriptLang
