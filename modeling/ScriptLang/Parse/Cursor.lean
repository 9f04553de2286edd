import ScriptLang.Diagnostic
import ScriptLang.Fault

/-!
  The reader's place in the tokens.

  A reading routine looks at the current token and at the one after it.  When the list is used up its
  last token repeats for ever.  A routine that cannot go on reports a diagnostic and gives up; the
  statement around it is dropped and reading goes on behind it, from where the routine stopped.

  The state also says whether the cursor is inside the body of a function, where a `return` is allowed.
-/

namespace ScriptLang.Parse

/-- The current token, the tokens after it, the diagnostics so far, in order, and whether the current
    token stands inside the body of a function. -/
structure State where
  current : Token
  rest : List Token
  diagnostics : List Diagnostic
  inFunction : Bool

/-- Why a routine gives no result: it reported a diagnostic, or reading as a whole cannot go on. -/
inductive Stop
  | rejected
  | halt (h : Halt)
  deriving DecidableEq, Repr

end Parse

/-- A reading routine.  It keeps its place and its diagnostics also when it stops. -/
abbrev Parse := EStateM Parse.Stop Parse.State

namespace Parse

/-- The bound on nested routines and repetitions is reached. -/
def outOfFuel {α : Type} : Parse α := throw (.halt .outOfFuel)

/-- The current token. -/
def current : Parse Token := return (← get).current

/-- The token after the current one. -/
def peek : Parse Token := do
  let s ← get
  return s.rest.headD s.current

/-- Whether the token after the current one has the given kind. -/
def peekIs (kind : TokenKind) : Parse Bool := return (← peek).kind = kind

/-- Steps to the next token. -/
def advance : Parse Unit :=
  modify fun s =>
    match s.rest with
    | [] => s
    | t :: ts => { s with current := t, rest := ts }

/-- Reports a diagnostic and gives up. -/
def reject {α : Type} (d : Diagnostic) : Parse α := do
  modify fun s => { s with diagnostics := s.diagnostics ++ [d] }
  throw .rejected

/-- Steps to the next token if it has the given kind. -/
def expect (kind : TokenKind) : Parse Unit := do
  let next ← peek
  if next.kind = kind then advance else reject (.expected kind next)

/-- Steps to the next token, which has to be an identifier. -/
def expectName : Parse Name := do
  expect .ident
  let t ← current
  return ⟨t, t.literal⟩

/-- A number read from the text of a token. -/
def readNumber {α : Type} (read : Except Fault α) : Parse α :=
  match read with
  | .ok a => return a
  | .error f => throw (.halt (.fault f))

/-- Runs a routine; `none` if it gives up. -/
def attempt {α : Type} (p : Parse α) : Parse (Option α) := fun s =>
  match p s with
  | .ok a s => .ok (some a) s
  | .error .rejected s => .ok none s
  | .error (.halt h) s => .error (.halt h) s

/-- Runs a routine inside the body of a function.  However it ends, the flag is as it was before. -/
def inBody {α : Type} (p : Parse α) : Parse α := fun s =>
  match p { s with inFunction := true } with
  | .ok a s' => .ok a { s' with inFunction := s.inFunction }
  | .error e s' => .error e { s' with inFunction := s.inFunction }

/-- One or more items with commas between them; `fuel` bounds their number. -/
def commaSeparated {α : Type} (item : Parse α) : (fuel : Nat) → Parse (List α)
  | 0 => outOfFuel
  | fuel + 1 => do
    let first ← item
    if ← peekIs .comma then
      advance
      let others ← commaSeparated item fuel
      return first :: others
    else return [first]

/-- Items with commas between them up to a closing parenthesis, the opening one being current. -/
def parenthesised {α : Type} (item : Parse α) (fuel : Nat) : Parse (List α) := do
  if ← peekIs .rparen then
    advance
    return []
  else
    let items ← commaSeparated item fuel
    expect .rparen
    return items

end ScriptLang.Parse
