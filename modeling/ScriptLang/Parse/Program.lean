import ScriptLang.Parse.Statement
import ScriptLang.Token.Scan

/-!
  Reading whole programs.

  Expressions, statements and blocks contain each other, so their routines are tied together here.
  Each of them is its rule with the routines one level deeper put in, and the number of levels is
  bounded by `fuel`.  Every second level at the latest takes a token, and so does every repetition,
  so a bound of four times the number of tokens is never reached.

  There is no other bound: a program is read however deeply it is nested, while a host that counts frames
  gives up on the deepest ones.
-/

namespace ScriptLang.Parse

mutual

/-- Reads an expression at the given strength. -/
def expression : (fuel : Nat) → (strength : Nat) → Parse Expr
  | 0, _ => outOfFuel
  | fuel + 1, strength =>
    expressionRule (expression fuel) (functionTail (block fuel) fuel) fuel strength

/-- Reads a statement. -/
def statement : (fuel : Nat) → Parse (Option Stmt)
  | 0 => outOfFuel
  | fuel + 1 => Parts.statement ⟨expression fuel, block fuel, fuel⟩

/-- Reads a block, the opening brace being current. -/
def block : (fuel : Nat) → Parse Block
  | 0 => outOfFuel
  | fuel + 1 => blockRule (statement fuel) fuel

end

/-- Reads statements up to the end of the input. -/
def programStatements (statement : Parse (Option Stmt)) : (fuel : Nat) → Parse (List Stmt)
  | 0 => outOfFuel
  | fuel + 1 => do
    if (← current).kind = .eof then return []
    else
      let kept ← keptStatement statement
      let others ← programStatements statement fuel
      return kept.toList ++ others

/-- Reads a program. -/
def program (fuel : Nat) : Parse Program := do
  let t ← current
  return ⟨t, ← programStatements (statement fuel) fuel⟩

end Parse

/-- A program as far as it could be read, and the diagnostics in the order of their discovery. -/
structure Parsed where
  program : Program
  diagnostics : List Diagnostic

/-- Reads the program that a list of tokens spells.  The last token, which should be an `eof`,
    repeats for ever; an empty list stands for an empty source. -/
def parseTokens (tokens : List Token) : Except Halt Parsed :=
  let (first, rest) :=
    match tokens with
    | [] => (⟨.eof, "", 1, 1⟩, [])
    | t :: ts => (t, ts)
  match Parse.program (4 * (tokens.length + 1)) ⟨first, rest, [], false⟩ with
  | .ok p s => .ok ⟨p, s.diagnostics⟩
  | .error (.halt h) _ => .error h
  -- a program routine gives up nowhere, so this is the same as an empty program
  | .error .rejected s => .ok ⟨⟨first, []⟩, s.diagnostics⟩

/-- Reads a program. -/
def parse (source : String) : Except Halt Parsed := parseTokens (tokenize source)

end ScriptLang
