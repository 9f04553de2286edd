import ScriptLang.Parse.Expression
import ScriptLang.Tree.Infer

/-!
  Reading statements.

  One routine for each form of statement.  It starts with the first token of the statement as the
  current one and ends on its last, a semicolon or a closing brace.
-/

namespace ScriptLang.Parse

/-- The type that a declaration keeps: the declared one, which has to be the type of a literal value,
    or else the type of the literal, if the value is one. -/
def reconcile (kind : DeclarationKind) (name : Name) (declared : Option TypeName) (value : Expr) :
    Parse (Option TypeName) := do
  match declared, value.literalType? with
  | none, inferred => return inferred
  | some d, none => return some d
  | some d, some inferred =>
    if inferred.name = d.name then return some d else reject (.typeMismatch kind name d inferred)

/-- What a statement routine is built from: the routines for the expressions and blocks inside it. -/
structure Parts where
  expr : Nat → Parse Expr
  block : Parse Block
  fuel : Nat

namespace Parts

variable (parts : Parts)

/-- Reads an expression that starts behind the current token. -/
def nextExpr : Parse Expr := do
  advance
  parts.expr Strength.lowest

/-- Reads `(`, an expression and `)`. -/
def test : Parse Expr := do
  expect .lparen
  let e ← parts.nextExpr
  expect .rparen
  return e

/-- Reads a block that starts behind the current token. -/
def nextBlock : Parse Block := do
  expect .lbrace
  parts.block

/-- Reads `var name: type = value;`, where the type or the value may be left out. -/
def varStatement : Parse Stmt := do
  let t ← current
  let name ← expectName
  let declared ← declaredType? parts.fuel
  if ← peekIs .assign then
    advance
    let value ← parts.nextExpr
    let declared ← reconcile .var name declared value
    expect .semicolon
    return .var t name declared (some value)
  else if declared.isNone then reject (.untypedVariable name)
  else
    expect .semicolon
    return .var t name declared none

/-- Reads `const name: type = value;`, where the type may be left out. -/
def constStatement : Parse Stmt := do
  let t ← current
  let name ← expectName
  let declared ← declaredType? parts.fuel
  if ← peekIs .assign then
    advance
    let value ← parts.nextExpr
    let declared ← reconcile .const name declared value
    expect .semicolon
    return .const t name declared value
  else reject (.uninitializedConstant name)

/-- Reads an expression with its semicolon. -/
def exprStatement : Parse Stmt := do
  let t ← current
  let value ← parts.expr Strength.lowest
  expect .semicolon
  return .expr t value

/-- Reads a branch; `fuel` bounds the length of a chain of alternatives. -/
def branchStatement : (fuel : Nat) → Parse Stmt
  | 0 => outOfFuel
  | fuel + 1 => do
    let t ← current
    let test ← parts.test
    let onTrue ← parts.nextBlock
    if ← peekIs .elseWord then
      advance
      let next ← peek
      match next.kind with
      | .ifWord =>
        advance
        let onFalse ← branchStatement fuel
        return .branch t test onTrue (some onFalse)
      | .lbrace =>
        advance
        let onFalse ← parts.block
        return .branch t test onTrue (some (.block onFalse))
      | _ => reject (.badAlternative next)
    else return .branch t test onTrue none

/-- Reads a loop with its test in front. -/
def whileStatement : Parse Stmt := do
  let t ← current
  let test ← parts.test
  return .whileLoop t test (← parts.nextBlock)

/-- Reads a loop with its test behind. -/
def doStatement : Parse Stmt := do
  let t ← current
  let body ← parts.nextBlock
  expect .whileWord
  let test ← parts.test
  expect .semicolon
  return .doLoop t body test

/-- Reads the first part of a `for` loop, ending on its semicolon. -/
def forInit : Parse (Option Stmt) := do
  match (← current).kind with
  | .semicolon => return none
  | .varWord => return some (← parts.varStatement)
  | _ => return some (← parts.exprStatement)

/-- Reads the second part of a `for` loop, ending on its semicolon. -/
def forTest : Parse (Option Expr) := do
  if ← peekIs .semicolon then
    advance
    return none
  else
    let e ← parts.nextExpr
    expect .semicolon
    return some e

/-- Reads the third part of a `for` loop. -/
def forUpdate : Parse (Option Expr) := do
  if ← peekIs .rparen then return none else return some (← parts.nextExpr)

/-- Reads a `for` loop. -/
def forStatement : Parse Stmt := do
  let t ← current
  expect .lparen
  advance
  let init ← parts.forInit
  let test ← parts.forTest
  let update ← parts.forUpdate
  expect .rparen
  return .forLoop t init test update (← parts.nextBlock)

/-- Reads a named function. -/
def functionStatement : Parse Stmt := do
  let t ← current
  advance
  let name ← current
  let f ← functionTail parts.block parts.fuel t
  return .function t ⟨name, name.literal⟩ f.parameters f.returns f.body

/-- Reads a `return`. -/
def returnStatement : Parse Stmt := do
  let t ← current
  if ¬ (← get).inFunction then reject (.strayReturn t.line)
  else if ← peekIs .semicolon then
    advance
    return .ret t none
  else
    let value ← parts.nextExpr
    expect .semicolon
    return .ret t (some value)

/-- Reads a `display`. -/
def displayStatement : Parse Stmt := do
  let t ← current
  expect .lparen
  let values ← arguments parts.expr parts.fuel
  expect .semicolon
  return .display t values

/-- Reads a statement; a semicolon on its own is none. -/
def statement : Parse (Option Stmt) := do
  match (← current).kind with
  | .semicolon => return none
  | .varWord => return some (← parts.varStatement)
  | .constWord => return some (← parts.constStatement)
  | .ifWord => return some (← parts.branchStatement parts.fuel)
  | .forWord => return some (← parts.forStatement)
  | .whileWord => return some (← parts.whileStatement)
  | .doWord => return some (← parts.doStatement)
  | .returnWord => return some (← parts.returnStatement)
  | .displayWord => return some (← parts.displayStatement)
  | .lbrace => return some (.block (← parts.block))
  | .fnWord =>
    if ← peekIs .ident then return some (← parts.functionStatement)
    else return some (← parts.exprStatement)
  | _ => return some (← parts.exprStatement)

end Parts

/-- Reads a statement and steps behind it; `none` if it was empty or had to be dropped. -/
def keptStatement (statement : Parse (Option Stmt)) : Parse (Option Stmt) := do
  let kept ← attempt statement
  advance
  return kept.join

/-- Reads statements up to the closing brace of the block that opened on `line`. -/
def blockStatements (statement : Parse (Option Stmt)) (line : Nat) : (fuel : Nat) → Parse (List Stmt)
  | 0 => outOfFuel
  | fuel + 1 => do
    match (← current).kind with
    | .rbrace => return []
    | .eof => reject (.unterminatedBlock line)
    | _ =>
      let kept ← keptStatement statement
      let others ← blockStatements statement line fuel
      return kept.toList ++ others

/-- Reads a block, the opening brace being current. -/
def blockRule (statement : Parse (Option Stmt)) (fuel : Nat) : Parse Block := do
  let t ← current
  advance
  return .mk t (← blockStatements statement t.line fuel)

end ScriptLang.Parse
