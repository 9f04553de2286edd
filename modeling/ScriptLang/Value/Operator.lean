import ScriptLang.Value

/-!
  Operators on values.

  Operators are spelled as strings, and a spelling that is no operator of the language is a runtime
  error.  Integers compute exactly; an integer that meets a double is converted to the nearest double
  first.  Values of different kinds are equal if they are shown alike.
-/

namespace ScriptLang

/-! ## Integers -/

/-- The quotient of the absolute values, negated if just one of the numbers is negative. -/
def truncatedQuotient (a b : Int) : Int :=
  if a < 0 ↔ b < 0 then ↑(a.natAbs / b.natAbs) else -↑(a.natAbs / b.natAbs)

/-- Quotient and remainder of a division that rounds towards zero.  The remainder is what the quotient
    leaves of the dividend. -/
def truncatedDivMod (a b : Int) : Except Fault (Int × Int) :=
  if b = 0 then .error .zeroDivisor
  else .ok (truncatedQuotient a b, a - b * truncatedQuotient a b)

/-- How a comparison is decided from `less` and `equal`. -/
def compareBy? (op : String) (less equal greater : Bool) : Option Bool :=
  match op with
  | "<" => some less
  | ">" => some greater
  | "<=" => some (less || equal)
  | ">=" => some (greater || equal)
  | _ => none

/-- An operator on two integers. -/
def integerOp (op : String) (x y : Int) : Value :=
  match op with
  | "+" => .int (x + y)
  | "-" => .int (x - y)
  | "*" => .int (x * y)
  | "/" =>
    match truncatedDivMod x y with
    | .ok (q, _) => .int q
    | .error _ => .error .divisionByZero
  | "%" =>
    match truncatedDivMod x y with
    | .ok (_, r) => .int r
    | .error _ => .error .moduloByZero
  | _ =>
    match compareBy? op (x < y) (x = y) (x > y) with
    | some b => .bool b
    | none => .error (.unknownInteger op)

/-! ## Doubles -/

/-- An operator on two doubles. -/
def floatOp (op : String) (x y : Float) : Except Fault Value :=
  match op with
  | "+" => .ok (.float (x + y))
  | "-" => .ok (.float (x - y))
  | "*" => .ok (.float (x * y))
  | "/" => .ok (if y == 0 then .error .divisionByZero else .float (x / y))
  | "%" =>
    if y == 0 then .ok (.error .moduloByZero) else (Number.remainder x y).map Value.float
  | _ =>
    match compareBy? op (x < y) (x == y) (y < x) with
    | some b => .ok (.bool b)
    | none => .ok (.error (.unknownFloat op))

/-- A number as a double. -/
def Value.toFloat? : Value → Option (Except Fault Float)
  | .int n => some (Number.ofInteger n)
  | .float x => some (.ok x)
  | _ => none

/-! ## All values -/

/-- Whether two values are equal. -/
def Value.equal (a b : Value) : Except Fault Bool :=
  match a, b with
  | .int x, .int y => .ok (x == y)
  | .float x, .float y => .ok (x == y)
  | .int x, .float y => .ok (Number.equalsInteger y x)
  | .float x, .int y => .ok (Number.equalsInteger x y)
  | .bool x, .bool y => .ok (x == y)
  | .str x, .str y => .ok (x == y)
  | .null, .null => .ok true
  | .function f, .function g => .ok (f.id == g.id)
  | a, b => do return (← a.text) == (← b.text)

/-- Two values shown one after the other. -/
def Value.concat (a b : Value) : Except Fault Value := do return .str ((← a.text) ++ (← b.text))

/-- Whether the operator is one of arithmetic or order. -/
def isArithmetic (op : String) : Bool :=
  op ∈ ["+", "-", "*", "/", "%", "<", ">", "<=", ">="]

/-- The error of an operator on values that it does not apply to. -/
def operandError (op : String) (a b : Value) : Value :=
  if isArithmetic op then .error (.operandTypes op a.typeName b.typeName)
  else .error (.unknownBinary op)

/-- An operator on two values that are neither concatenated nor tested for equality. -/
def arithmeticOp (op : String) (a b : Value) : Except Fault Value :=
  match a, b with
  | .int x, .int y => .ok (integerOp op x y)
  | .str x, .str y =>
    match compareBy? op (x < y) (x = y) (y < x) with
    | some result => .ok (.bool result)
    | none => .ok (operandError op a b)
  | a, b =>
    match a.toFloat?, b.toFloat? with
    | some x, some y => do floatOp op (← x) (← y)
    | _, _ => .ok (operandError op a b)

/-- An operator between two values. -/
def binaryOp (op : String) (a b : Value) : Except Fault Value :=
  match op, a, b with
  | "+", .str _, _ => a.concat b
  | "+", _, .str _ => a.concat b
  | "==", _, _ => do return .bool (← a.equal b)
  | "!=", _, _ => do return .bool !(← a.equal b)
  | _, _, _ => arithmeticOp op a b

/-- An operator in front of a value. -/
def unaryOp (op : String) (v : Value) : Value :=
  match op with
  | "!" => .bool !v.truthy
  | "-" =>
    match v with
    | .int n => .int (-n)
    | .float x => .float (-x)
    | v => .error (.negated v.typeName)
  | _ => .error (.unknownUnary op v.typeName)

end ScriptLang
