import ScriptLang.Number.FloatText
import ScriptLang.Parse.Declared

/-!
  Reading expressions.

  An expression is an operand followed by operators that extend it to the right.  Each operator binds
  with a strength; reading at strength `p` takes the operators that bind tighter than `p` and leaves
  the others to the caller.  A routine starts with the first token of the expression as the current
  one and ends on the last.
-/

namespace ScriptLang

/-! ## How tightly operators bind -/

namespace Strength

/-- Below every operator. -/
abbrev lowest : Nat := 0
abbrev assignment : Nat := 1
abbrev choice : Nat := 2
abbrev logical : Nat := 3
abbrev equality : Nat := 4
abbrev order : Nat := 5
abbrev sum : Nat := 6
abbrev product : Nat := 7
/-- Operators in front of their operand. -/
abbrev before : Nat := 8
/-- Operators behind their operand. -/
abbrev after : Nat := 9
abbrev call : Nat := 10

end Strength

/-- How tightly a token binds to the expression on its left, `lowest` if it does not extend one. -/
def TokenKind.strength : TokenKind → Nat
  | assign => Strength.assignment
  | question => Strength.choice
  | and | or => Strength.logical
  | eq | notEq => Strength.equality
  | lt | gt | ltEq | gtEq => Strength.order
  | plus | minus => Strength.sum
  | asterisk | slash | percent => Strength.product
  | increment | decrement => Strength.after
  | lparen => Strength.call
  | _ => Strength.lowest

namespace Parse

/-! ## Operands and extensions

  Both take the routine `expr` that reads the expressions inside them at a given strength. -/

/-- Reads a literal, an identifier, an operator with its operand, an expression in parentheses or a
    function. -/
def operand (expr : Nat → Parse Expr) (tail : Token → Parse FunctionTail) : Parse Expr := do
  let t ← current
  match t.kind with
  | .ident => return .name ⟨t, t.literal⟩
  | .int => return .int t (← readNumber (Number.readInteger t.literal))
  | .float => return .float t (← readNumber (Number.readFloat t.literal))
  | .string => return .str t t.literal
  | .boolean => return .bool t (t.literal = "true")
  | .bang | .minus | .increment | .decrement =>
    advance
    return .before t t.literal (← expr Strength.before)
  | .lparen =>
    advance
    let inner ← expr Strength.lowest
    expect .rparen
    return inner
  | .fnWord =>
    let f ← tail t
    return .function t f.parameters f.returns f.body
  | _ => reject (.noExpression t)

/-- Reads the arguments of a call or of `display`, the opening parenthesis being current. -/
def arguments (expr : Nat → Parse Expr) (fuel : Nat) : Parse (List Expr) :=
  parenthesised (do advance; expr Strength.lowest) fuel

/-- Extends `left` by the operator that is the current token. -/
def extension (expr : Nat → Parse Expr) (fuel : Nat) (left : Expr) : Parse Expr := do
  let t ← current
  match t.kind with
  | .assign =>
    match left with
    | .name target =>
      advance
      return .assign t target (← expr Strength.lowest)
    | _ => reject (.badTarget t.line left)
  | .question =>
    advance
    let onTrue ← expr Strength.lowest
    expect .colon
    advance
    return .choice t left onTrue (← expr Strength.lowest)
  | .increment | .decrement => return .after t left t.literal
  | .lparen => return .call t left (← arguments expr fuel)
  | kind =>
    advance
    return .binary t left t.literal (← expr kind.strength)

/-- Extends `left` while the next token binds tighter than `strength`. -/
def climb (extend : Expr → Parse Expr) (strength : Nat) : (fuel : Nat) → Expr → Parse Expr
  | 0, _ => outOfFuel
  | fuel + 1, left => do
    if strength < (← peek).kind.strength then
      advance
      climb extend strength fuel (← extend left)
    else return left

/-- Reads an expression at the given strength. -/
def expressionRule (expr : Nat → Parse Expr) (tail : Token → Parse FunctionTail) (fuel : Nat)
    (strength : Nat) : Parse Expr := do
  climb (extension expr fuel) strength fuel (← operand expr tail)

end Parse

end ScriptLang
