import ScriptLang.Value

/-!
  Arguments and the types that parameters declare.

  `any` and `object` take every value, `float` takes an integer by converting it, and a function type
  takes the functions with exactly that signature.  Every other type takes the values whose type has
  its name.
-/

namespace ScriptLang

/-- The type of an argument, as a parameter of the declared type sees it. -/
def Value.typeAgainst (v : Value) (declared : String) : String :=
  match v with
  | .function f => if declared.startsWith "fn(" then f.signature else v.typeName
  | v => v.typeName

/-- The value that a parameter is bound to, or the error that refuses the argument. -/
def checkArgument (function parameter declared : String) (v : Value) : Except Fault Value :=
  if declared = "any" ∨ declared = "object" then .ok v
  else
    match declared, v with
    | "float", .int n => (Number.ofInteger n).map Value.float
    | _, _ =>
      let given := v.typeAgainst declared
      if given = declared then .ok v
      else .ok (.error (.argumentType function parameter declared given))

end ScriptLang
