import ScriptLang.Token

/-!
  Syntax trees.

  A program is a list of statements; expressions and statements refer to each other through function
  bodies.  Every node keeps the token that introduced it, for positions and for the spelling of
  number literals.  Operators are kept as they were spelled, so a tree can hold an operator that the
  language does not have.
-/

namespace ScriptLang

/-- The name of a type: a built-in type, a user name, or a signature such as
    `fn(int, int) => int`. -/
structure TypeName where
  token : Token
  name : String
  deriving DecidableEq, Repr

/-- An identifier. -/
structure Name where
  token : Token
  text : String
  deriving DecidableEq, Repr

/-- A parameter of a function with its declared type. -/
structure Parameter where
  token : Token
  name : Name
  declared : TypeName
  deriving DecidableEq, Repr

mutual

/-- Expressions. -/
inductive Expr
  | name (name : Name)
  | int (token : Token) (value : Int)
  | float (token : Token) (value : Float)
  | str (token : Token) (value : String)
  | bool (token : Token) (value : Bool)
  /-- An operator in front of its operand. -/
  | before (token : Token) (op : String) (operand : Expr)
  /-- An operator behind its operand. -/
  | after (token : Token) (operand : Expr) (op : String)
  | binary (token : Token) (left : Expr) (op : String) (right : Expr)
  /-- A choice between two expressions. -/
  | choice (token : Token) (test onTrue onFalse : Expr)
  | assign (token : Token) (target : Name) (value : Expr)
  | call (token : Token) (callee : Expr) (arguments : List Expr)
  | function (token : Token) (parameters : List Parameter) (returns : TypeName) (body : Block)

/-- Statements between braces. -/
inductive Block
  | mk (token : Token) (statements : List Stmt)

/-- Statements. -/
inductive Stmt
  | var (token : Token) (name : Name) (declared : Option TypeName) (value : Option Expr)
  | const (token : Token) (name : Name) (declared : Option TypeName) (value : Expr)
  | ret (token : Token) (value : Option Expr)
  | expr (token : Token) (value : Expr)
  | block (body : Block)
  | branch (token : Token) (test : Expr) (onTrue : Block) (onFalse : Option Stmt)
  | forLoop (token : Token) (init : Option Stmt) (test update : Option Expr) (body : Block)
  | whileLoop (token : Token) (test : Expr) (body : Block)
  | doLoop (token : Token) (body : Block) (test : Expr)
  | function (token : Token) (name : Name) (parameters : List Parameter) (returns : TypeName)
      (body : Block)
  | display (token : Token) (arguments : List Expr)

end

/-- A whole program; its token is the first one of the source. -/
structure Program where
  token : Token
  statements : List Stmt

/-- Any node of a tree. -/
inductive Node
  | program (p : Program)
  | stmt (s : Stmt)
  | expr (e : Expr)
  | typeName (t : TypeName)
  | parameter (p : Parameter)

namespace Block

/-- The opening brace. -/
def token : Block → Token
  | mk token _ => token

/-- The statements between the braces. -/
def statements : Block → List Stmt
  | mk _ statements => statements

end Block

namespace Expr

/-- The token that introduced an expression. -/
def token : Expr → Token
  | name n => n.token
  | int t _ | float t _ | str t _ | bool t _ | before t _ _ | after t _ _ | binary t _ _ _
  | choice t _ _ _ | assign t _ _ | call t _ _ | function t _ _ _ => t

/-- What messages and descriptions call an expression of this form. -/
def kindName : Expr → String
  | name _ => "Identifier"
  | int .. => "IntegerLiteral"
  | float .. => "FloatLiteral"
  | str .. => "StringLiteral"
  | bool .. => "BooleanLiteral"
  | before .. => "PrefixExpression"
  | after .. => "PostfixExpression"
  | binary .. => "InfixExpression"
  | choice .. => "TernaryExpression"
  | assign .. => "AssignmentExpression"
  | call .. => "CallExpression"
  | function .. => "FunctionLiteral"

end Expr

namespace Stmt

/-- The token that introduced a statement. -/
def token : Stmt → Token
  | block b => b.token
  | var t _ _ _ | const t _ _ _ | ret t _ | expr t _ | branch t _ _ _ | forLoop t _ _ _ _
  | whileLoop t _ _ | doLoop t _ _ | function t _ _ _ _ | display t _ => t

/-- What descriptions call a statement of this form. -/
def kindName : Stmt → String
  | var .. => "VarStatement"
  | const .. => "ConstStatement"
  | ret .. => "ReturnStatement"
  | expr .. => "ExpressionStatement"
  | block _ => "BlockStatement"
  | branch .. => "IfStatement"
  | forLoop .. => "ForStatement"
  | whileLoop .. => "WhileStatement"
  | doLoop .. => "DoWhileStatement"
  | function .. => "FunctionDeclaration"
  | display .. => "DisplayStatement"

end Stmt

/-- What messages and descriptions call a node of this form. -/
def Node.kindName : Node → String
  | program _ => "Program"
  | stmt s => s.kindName
  | expr e => e.kindName
  | typeName _ => "TypeNode"
  | parameter _ => "Parameter"

/-- The name of the type of a function with the given parameters and result. -/
def signature (parameters : List String) (result : String) : String :=
  "fn(" ++ ", ".intercalate parameters ++ ") => " ++ result

/-- The name of the type of a function with the given declared parameters and result. -/
def declaredSignature (parameters : List Parameter) (returns : TypeName) : String :=
  signature (parameters.map (·.declared.name)) returns.name

end ScriptLang
