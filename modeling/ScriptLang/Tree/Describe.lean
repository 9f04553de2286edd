import ScriptLang.Json
import ScriptLang.Tree

/-!
  Trees as JSON.

  Each node becomes an object that holds the name of its form, its position and one member for each
  of its parts; absent parts are `null`.  Of the token only the position is kept.  As for the printed
  form there is no limit on the depth of a tree.
-/

namespace ScriptLang

/-- The description of a node of form `kind` at a token. -/
def describeNode (kind : String) (token : Token) (parts : List (String × Json)) : Json :=
  .obj (("node", .str kind) :: ("line", .int token.line) :: ("column", .int token.column) :: parts)

/-- An identifier. -/
def Name.describe (n : Name) : Json :=
  describeNode "Identifier" n.token [("value", .str n.text)]

/-- The name of a type. -/
def TypeName.describe (t : TypeName) : Json :=
  describeNode "TypeNode" t.token [("name", .str t.name)]

/-- A parameter. -/
def Parameter.describe (p : Parameter) : Json :=
  describeNode "Parameter" p.token
    [("name", p.name.describe), ("type_annotation", p.declared.describe)]

/-- A declared type that may be absent. -/
def describeDeclared : Option TypeName → Json
  | none => .null
  | some t => t.describe

mutual

/-- The description of an expression. -/
def Expr.describe : Expr → Json
  | .name n => n.describe
  | .int t value => describeNode "IntegerLiteral" t [("value", .int value)]
  | .float t value => describeNode "FloatLiteral" t [("value", .float value)]
  | .str t value => describeNode "StringLiteral" t [("value", .str value)]
  | .bool t value => describeNode "BooleanLiteral" t [("value", .bool value)]
  | .before t op operand =>
    describeNode "PrefixExpression" t [("operator", .str op), ("right", operand.describe)]
  | .after t operand op =>
    describeNode "PostfixExpression" t [("left", operand.describe), ("operator", .str op)]
  | .binary t left op right =>
    describeNode "InfixExpression" t
      [("left", left.describe), ("operator", .str op), ("right", right.describe)]
  | .choice t test onTrue onFalse =>
    describeNode "TernaryExpression" t
      [("condition", test.describe), ("consequence", onTrue.describe),
       ("alternative", onFalse.describe)]
  | .assign t target value =>
    describeNode "AssignmentExpression" t [("name", target.describe), ("value", value.describe)]
  | .call t callee arguments =>
    describeNode "CallExpression" t
      [("function", callee.describe), ("arguments", .arr (describeExprs arguments))]
  | .function t parameters returns body =>
    describeNode "FunctionLiteral" t
      [("parameters", .arr (parameters.map Parameter.describe)),
       ("return_type", returns.describe), ("body", body.describe)]

/-- The descriptions of several expressions. -/
def describeExprs : List Expr → List Json
  | [] => []
  | e :: es => e.describe :: describeExprs es

/-- The description of a block. -/
def Block.describe : Block → Json
  | .mk t statements =>
    describeNode "BlockStatement" t [("statements", .arr (describeStmts statements))]

/-- The description of a statement. -/
def Stmt.describe : Stmt → Json
  | .var t name declared value =>
    describeNode "VarStatement" t
      [("name", name.describe), ("type_annotation", describeDeclared declared),
       ("value", describeExpr? value)]
  | .const t name declared value =>
    describeNode "ConstStatement" t
      [("name", name.describe), ("type_annotation", describeDeclared declared),
       ("value", value.describe)]
  | .ret t value =>
    describeNode "ReturnStatement" t [("return_value", describeExpr? value)]
  | .expr t value => describeNode "ExpressionStatement" t [("expression", value.describe)]
  | .block body => body.describe
  | .branch t test onTrue onFalse =>
    describeNode "IfStatement" t
      [("condition", test.describe), ("consequence", onTrue.describe),
       ("alternative", describeStmt? onFalse)]
  | .forLoop t init test update body =>
    describeNode "ForStatement" t
      [("init", describeStmt? init), ("condition", describeExpr? test),
       ("update", describeExpr? update), ("body", body.describe)]
  | .whileLoop t test body =>
    describeNode "WhileStatement" t [("condition", test.describe), ("body", body.describe)]
  | .doLoop t body test =>
    describeNode "DoWhileStatement" t [("body", body.describe), ("condition", test.describe)]
  | .function t name parameters returns body =>
    describeNode "FunctionDeclaration" t
      [("name", name.describe), ("parameters", .arr (parameters.map Parameter.describe)),
       ("return_type", returns.describe), ("body", body.describe)]
  | .display t arguments =>
    describeNode "DisplayStatement" t [("arguments", .arr (describeExprs arguments))]

/-- The description of an expression that may be absent. -/
def describeExpr? : Option Expr → Json
  | none => .null
  | some e => e.describe

/-- The description of a statement that may be absent. -/
def describeStmt? : Option Stmt → Json
  | none => .null
  | some s => s.describe

/-- The descriptions of several statements. -/
def describeStmts : List Stmt → List Json
  | [] => []
  | s :: ss => s.describe :: describeStmts ss

end

/-- The description of a program. -/
def Program.describe (p : Program) : Json :=
  describeNode "Program" p.token [("statements", .arr (describeStmts p.statements))]

/-- The description of a node. -/
def Node.describe : Node → Json
  | .program p => p.describe
  | .stmt s => s.describe
  | .expr e => e.describe
  | .typeName t => t.describe
  | .parameter p => p.describe

end ScriptLang
