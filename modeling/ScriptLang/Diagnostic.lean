import ScriptLang.Tree

/-!
  Diagnostics: what is wrong with a source text.

  A diagnostic is a cause with the tokens it is about; its wording is in one place.
-/

namespace ScriptLang

/-- The two forms of declaration that take a value. -/
inductive DeclarationKind
  | var
  | const
  deriving DecidableEq, Repr

/-- What a diagnostic calls a declaration. -/
def DeclarationKind.word : DeclarationKind → String
  | var => "variable"
  | const => "constant"

/-- Why a construct was dropped. -/
inductive Diagnostic
  /-- The token `found` stands where one of another kind is needed. -/
  | expected (kind : TokenKind) (found : Token)
  /-- The input ends inside a block. -/
  | unterminatedBlock (line : Nat)
  /-- A variable has neither a declared type nor a value. -/
  | untypedVariable (name : Name)
  /-- A constant has no value. -/
  | uninitializedConstant (name : Name)
  /-- The declared type is not the type of the literal value. -/
  | typeMismatch (kind : DeclarationKind) (name : Name) (declared inferred : TypeName)
  /-- The token `found` starts no type. -/
  | badType (found : Token)
  /-- The token `found` follows `else` but starts neither a block nor another branch. -/
  | badAlternative (found : Token)
  /-- A parameter has no declared type. -/
  | untypedParameter (name : Name)
  /-- A `return` stands outside every function body. -/
  | strayReturn (line : Nat)
  /-- The token `found` starts no expression. -/
  | noExpression (found : Token)
  /-- The left side of an assignment is no identifier. -/
  | badTarget (line : Nat) (target : Expr)

/-- The wording of a diagnostic. -/
def Diagnostic.message : Diagnostic → String
  | expected kind found =>
    s!"Expected next token to be {kind.name}, got {found.kind.name} at line {found.line}"
  | unterminatedBlock line =>
    s!"Unterminated block starting at line {line}: expected '\x7d' before end of input"
  | untypedVariable name =>
    s!"Variable '{name.text}' at line {name.token.line} must have a type annotation or an initializer."
  | uninitializedConstant name =>
    s!"Expected '=' after const identifier '{name.text}' at line {name.token.line}. " ++
      "Constants must be initialized."
  | typeMismatch kind name declared inferred =>
    s!"Type mismatch for {kind.word} '{name.text}' at line {name.token.line}. " ++
      s!"Explicitly typed as '{declared.name}' but initializer is of inferred type '{inferred.name}'."
  | badType found =>
    s!"Invalid token for type annotation: '{found.literal}' ({found.kind.name}) at line " ++
      s!"{found.line}. Expected a built-in type (int, float, string, boolean, void), " ++
      "a function type or an identifier for the type name."
  | badAlternative found =>
    s!"Expected 'if' or '\x7b' after 'else', got {found.kind.name} at line {found.line}"
  | untypedParameter name =>
    s!"Parameter '{name.text}' at line {name.token.line} must have a type annotation."
  | strayReturn line => s!"Return statement is not allowed outside of a function body at line {line}"
  | noExpression found =>
    s!"No prefix parse function found for token {found.kind.name} ('{found.literal}') " ++
      s!"at line {found.line}"
  | badTarget line target =>
    s!"Invalid assignment target at line {line}. " ++
      s!"Expected an identifier, got {target.kindName}."

end ScriptLang
