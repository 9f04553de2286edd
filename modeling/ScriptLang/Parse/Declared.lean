import ScriptLang.Parse.Cursor

/-!
  Reading types and the heads of functions.

  A type is a built-in type, an identifier, or a function type `fn(int, string) => boolean`.  Every
  parameter has to declare its type; a function that declares no result has the result `void`.
-/

namespace ScriptLang.Parse

/-- Reads a type that starts behind the current token; `inner` reads the types inside it. -/
def typeRule (inner : Parse TypeName) (fuel : Nat) : Parse TypeName := do
  let next ← peek
  if next.kind = .fnWord then
    advance
    expect .lparen
    let parameters ← parenthesised inner fuel
    expect .arrow
    let result ← inner
    return ⟨next, signature (parameters.map (·.name)) result.name⟩
  else if next.kind.isTypeWord then
    advance
    return ⟨next, next.literal⟩
  else reject (.badType next)

/-- Reads a type that starts behind the current token. -/
def typeName : (fuel : Nat) → Parse TypeName
  | 0 => outOfFuel
  | fuel + 1 => typeRule (typeName fuel) fuel

/-- Reads a colon and a type. -/
def declaredType (fuel : Nat) : Parse TypeName := do
  expect .colon
  typeName fuel

/-- Reads a colon and a type if a colon follows. -/
def declaredType? (fuel : Nat) : Parse (Option TypeName) := do
  if ← peekIs .colon then return some (← declaredType fuel) else return none

/-- Reads a parameter that starts behind the current token. -/
def parameter (fuel : Nat) : Parse Parameter := do
  let name ← expectName
  if ← peekIs .colon then
    let declared ← declaredType fuel
    return ⟨name.token, name, declared⟩
  else reject (.untypedParameter name)

/-- The result of a function that declares none, placed at its `fn`. -/
def voidAt (token : Token) : TypeName := ⟨⟨.voidWord, "void", token.line, token.column⟩, "void"⟩

/-- What stands behind the `fn` and the name of a function. -/
structure FunctionTail where
  parameters : List Parameter
  returns : TypeName
  body : Block

/-- Reads parameters, result and body of the function whose `fn` is `token`. -/
def functionTail (body : Parse Block) (fuel : Nat) (token : Token) : Parse FunctionTail := do
  expect .lparen
  let parameters ← parenthesised (parameter fuel) fuel
  let returns ← declaredType? fuel
  expect .lbrace
  let body ← inBody body
  return ⟨parameters, returns.getD (voidAt token), body⟩

end ScriptLang.Parse
