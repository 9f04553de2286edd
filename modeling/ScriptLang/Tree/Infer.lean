import ScriptLang.Tree

/-!
  The type of a literal.

  Only literals have a type before a program runs: numbers, which may be negated, strings, booleans
  and functions.  The inferred type carries the position of the literal, for a negated number that of
  the number.
-/

namespace ScriptLang

/-- The name of a type, placed at a token. -/
def TypeName.inferredAt (token : Token) (name : String) : TypeName where
  token := ⟨.ident, name, token.line, token.column⟩
  name := name

/-- The type of a literal, `none` for every other expression. -/
def Expr.literalType? : Expr → Option TypeName
  | .int t _ => some (.inferredAt t "int")
  | .float t _ => some (.inferredAt t "float")
  | .str t _ => some (.inferredAt t "string")
  | .bool t _ => some (.inferredAt t "boolean")
  | .function t parameters returns _ => some (.inferredAt t (declaredSignature parameters returns))
  | .before _ op (.int t _) => if op = "-" then some (.inferredAt t "int") else none
  | .before _ op (.float t _) => if op = "-" then some (.inferredAt t "float") else none
  | _ => none

end ScriptLang
