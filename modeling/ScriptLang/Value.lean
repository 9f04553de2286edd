import ScriptLang.Fault
import ScriptLang.Number.FloatText
import ScriptLang.Tree

/-!
  Runtime values.

  Besides numbers, booleans, strings, `null` and functions there are two signals.  `error` is a
  runtime error on its way out of the program, `returned` is the value of a `return` on its way to
  the call it ends.  Both are values, and each construct says what it does with one of them.
-/

namespace ScriptLang

/-! ## Runtime errors -/

/-- What went wrong in a running program. -/
inductive RuntimeError
  /-- The scope already declares the name. -/
  | redeclared (name : String)
  /-- The name is a constant and cannot be assigned to. -/
  | constantTarget (name : String)
  /-- No scope in sight declares the name that is assigned to. -/
  | unknownTarget (name : String)
  /-- No scope in sight declares the name that is read. -/
  | unknownName (name : String)
  /-- The operand of `++` or `--` is an expression of the given form and no identifier. -/
  | updateTarget (op form : String)
  /-- The operand of `++` or `--` has the given type and is no number. -/
  | updateOperand (op type : String)
  /-- A value with the given tag is called. -/
  | notCallable (tag : String)
  | arity (function : String) (expected given : Nat)
  | argumentType (function parameter expected given : String)
  | recursionLimit (function : String)
  /-- A value of the given type is negated. -/
  | negated (type : String)
  | unknownUnary (op type : String)
  | operandTypes (op left right : String)
  | unknownBinary (op : String)
  | unknownInteger (op : String)
  | unknownFloat (op : String)
  | divisionByZero
  | moduloByZero
  /-- A node of the given form has no value. -/
  | unsupportedNode (form : String)
  /-- An error made by the host of the program, in its own words. -/
  | raised (message : String)
  deriving DecidableEq, Repr

/-- The wording of a runtime error. -/
def RuntimeError.message : RuntimeError → String
  | redeclared name => s!"Identifier '{name}' has already been declared in this scope."
  | constantTarget name => s!"Assignment to constant variable '{name}'."
  | unknownTarget name => s!"Identifier '{name}' not found for assignment."
  | unknownName name => s!"identifier not found: {name}"
  | updateTarget op form => s!"Operator '{op}' requires an identifier operand, got {form}."
  | updateOperand op type => s!"Operator '{op}' requires a numeric operand, got '{type}'."
  | notCallable tag => s!"Cannot call non-function type: {tag}"
  | arity function expected given =>
    s!"Function '{function}' expects {expected} arguments, got {given}."
  | argumentType function parameter expected given =>
    s!"Type mismatch for parameter '{parameter}' of function '{function}': " ++
      s!"expected '{expected}', got '{given}'."
  | recursionLimit function => s!"Maximum recursion depth exceeded in function '{function}'."
  | negated type => s!"Unsupported operand type for unary '-': '{type}'."
  | unknownUnary op type => s!"Unknown operator: {op}{type}"
  | operandTypes op left right =>
    s!"Unsupported operand types for '{op}': '{left}' and '{right}'."
  | unknownBinary op => s!"Unknown operator: {op}"
  | unknownInteger op => s!"Unknown operator: int {op} int"
  | unknownFloat op => s!"Unknown operator: float {op} float"
  | divisionByZero => "Division by zero."
  | moduloByZero => "Modulo by zero."
  | unsupportedNode form => s!"Unsupported AST node type: {form}"
  | raised message => message

/-! ## Values -/

/-- Scopes are numbered in the order of their creation. -/
abbrev ScopeId := Nat

/-- A function with the scope it was made in.  Two functions are the same only if they have the same
    `id`, which is new each time a function is made. -/
structure Closure where
  id : Nat
  /-- The declared name; a function written as an expression has none. -/
  name : Option String
  parameters : List Parameter
  returns : TypeName
  body : Block
  scope : ScopeId

/-- Runtime values, the two signals among them. -/
inductive Value
  | int (value : Int)
  | float (value : Float)
  | bool (value : Bool)
  | str (value : String)
  | null
  | function (f : Closure)
  | returned (value : Value)
  | error (e : RuntimeError)

namespace Closure

/-- The name messages call a function by. -/
def displayName (f : Closure) : String :=
  match f.name with
  | none => "anonymous"
  | some name => if name = "" then "anonymous" else name

/-- The name of the type of a function. -/
def signature (f : Closure) : String := declaredSignature f.parameters f.returns

/-- How a function is shown. -/
def text (f : Closure) : String :=
  "fn(" ++ ", ".intercalate (f.parameters.map (·.name.text)) ++ ") \x7b ... \x7d"

end Closure

namespace Value

/-- The tag of the kind of a value. -/
def tag : Value → String
  | int _ => "INTEGER"
  | float _ => "FLOAT"
  | bool _ => "BOOLEAN"
  | str _ => "STRING"
  | null => "NULL"
  | function _ => "FUNCTION"
  | returned _ => "RETURN_VALUE"
  | error _ => "ERROR"

/-- The name of the type of a value, as declarations write it. -/
def typeName : Value → String
  | int _ => "int"
  | float _ => "float"
  | bool _ => "boolean"
  | str _ => "string"
  | null => "null"
  | function _ => "function"
  | returned _ => "return"
  | error _ => "error"

/-- Whether a value counts as true: numbers other than zero, nonempty strings and all functions do,
    `null` and signals do not. -/
def truthy : Value → Bool
  | int value => value != 0
  | float value => value != 0
  | bool value => value
  | str value => value != ""
  | function _ => true
  | null | returned _ | error _ => false

/-- Whether a value is an error on its way out. -/
def isError : Value → Bool
  | error _ => true
  | _ => false

/-- Whether a value ends the statements around it. -/
def isSignal : Value → Bool
  | returned _ | error _ => true
  | _ => false

/-- The value a call or a program yields: that of a `return` without its signal. -/
def unwrap : Value → Value
  | returned value => value
  | value => value

/-- How a value is shown.  Only integers with too many digits cannot be. -/
def text : Value → Except Fault String
  | int value => Number.integerText value
  | float value => .ok (Number.displayFloat value)
  | bool value => .ok (if value then "true" else "false")
  | str value => .ok value
  | null => .ok "null"
  | function f => .ok f.text
  | returned value => value.text
  | error e => .ok ("ERROR: " ++ e.message)

end Value

end ScriptLang
