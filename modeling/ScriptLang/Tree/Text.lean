import ScriptLang.Tree

/-!
  The printed form of a tree.

  Every operator application is put in parentheses, so the text does not depend on how tightly the
  operators bind.  Number literals print as they were spelled, strings take the quote that they do
  not contain.  Every tree has a printed form, however deep it is; no limit on frames is kept here.
-/

namespace ScriptLang

/-- A string literal, between double quotes unless it holds one. -/
def quoteLiteral (value : String) : String :=
  if value.contains '"' then "'" ++ value ++ "'" else "\"" ++ value ++ "\""

/-- A parameter with its type. -/
def Parameter.text (p : Parameter) : String := p.name.text ++ ": " ++ p.declared.name

/-- The declared type of a declaration, if it has one. -/
def declaredText : Option TypeName → String
  | none => ""
  | some t => ": " ++ t.name

/-- The head of a function: its parameters and its result. -/
def headText (parameters : List Parameter) (returns : TypeName) : String :=
  "(" ++ ", ".intercalate (parameters.map Parameter.text) ++ "): " ++ returns.name

mutual

/-- The printed form of an expression. -/
def Expr.text : Expr → String
  | .name n => n.text
  | .int t _ => t.literal
  | .float t _ => t.literal
  | .str _ value => quoteLiteral value
  | .bool _ value => if value then "true" else "false"
  | .before _ op operand => "(" ++ op ++ operand.text ++ ")"
  | .after _ operand op => "(" ++ operand.text ++ op ++ ")"
  | .binary _ left op right => "(" ++ left.text ++ " " ++ op ++ " " ++ right.text ++ ")"
  | .choice _ test onTrue onFalse =>
    "(" ++ test.text ++ " ? " ++ onTrue.text ++ " : " ++ onFalse.text ++ ")"
  | .assign _ target value => "(" ++ target.text ++ " = " ++ value.text ++ ")"
  | .call _ callee arguments =>
    callee.text ++ "(" ++ ", ".intercalate (exprTexts arguments) ++ ")"
  | .function _ parameters returns body =>
    "fn" ++ headText parameters returns ++ " " ++ body.text

/-- The printed forms of several expressions. -/
def exprTexts : List Expr → List String
  | [] => []
  | e :: es => e.text :: exprTexts es

/-- The printed form of a block. -/
def Block.text : Block → String
  | .mk _ [] => "\x7b \x7d"
  | .mk _ (s :: ss) => "\x7b " ++ " ".intercalate (s.text :: stmtTexts ss) ++ " \x7d"

/-- The printed form of a statement. -/
def Stmt.text : Stmt → String
  | .var _ name declared none => "var " ++ name.text ++ declaredText declared ++ ";"
  | .var _ name declared (some value) =>
    "var " ++ name.text ++ declaredText declared ++ " = " ++ value.text ++ ";"
  | .const _ name declared value =>
    "const " ++ name.text ++ declaredText declared ++ " = " ++ value.text ++ ";"
  | .ret _ none => "return;"
  | .ret _ (some value) => "return " ++ value.text ++ ";"
  | .expr _ value => value.text ++ ";"
  | .block body => body.text
  | .branch _ test onTrue none => "if (" ++ test.text ++ ") " ++ onTrue.text
  | .branch _ test onTrue (some onFalse) =>
    "if (" ++ test.text ++ ") " ++ onTrue.text ++ " else " ++ onFalse.text
  | .forLoop _ init test update body =>
    "for (" ++ initText init ++ testText test ++ updateText update ++ ") " ++ body.text
  | .whileLoop _ test body => "while (" ++ test.text ++ ") " ++ body.text
  | .doLoop _ body test => "do " ++ body.text ++ " while (" ++ test.text ++ ");"
  | .function _ name parameters returns body =>
    "fn " ++ name.text ++ headText parameters returns ++ " " ++ body.text
  | .display _ arguments => "display(" ++ ", ".intercalate (exprTexts arguments) ++ ");"

/-- The first part of a `for` loop with its semicolon. -/
def initText : Option Stmt → String
  | none => ";"
  | some s => s.text

/-- The second part of a `for` loop with its semicolon. -/
def testText : Option Expr → String
  | none => ";"
  | some e => " " ++ e.text ++ ";"

/-- The third part of a `for` loop. -/
def updateText : Option Expr → String
  | none => ""
  | some e => " " ++ e.text

/-- The printed forms of several statements. -/
def stmtTexts : List Stmt → List String
  | [] => []
  | s :: ss => s.text :: stmtTexts ss

end

/-- The printed form of a program: a line for each statement. -/
def Program.text (p : Program) : String := "\n".intercalate (stmtTexts p.statements)

/-- The printed form of a node. -/
def Node.text : Node → String
  | .program p => p.text
  | .stmt s => s.text
  | .expr e => e.text
  | .typeName t => t.name
  | .parameter p => p.text

theorem exprTexts_eq_map (es : List Expr) : exprTexts es = es.map Expr.text := by
  induction es with
  | nil => rfl
  | cons e es ih => simp [exprTexts, ih]

end ScriptLang
