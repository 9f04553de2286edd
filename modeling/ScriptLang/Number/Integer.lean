import ScriptLang.Fault
import ScriptLang.Text.DecimalDigit

/-!
  Integers as text.

  Integers are unbounded, but text of more than `digitLimit` digits is neither read nor written.
  Reading takes the decimal digits of every script, a sign, single underscores between digits, and
  blanks around the whole.
-/

namespace ScriptLang.Number

/-- The number a list of decimal digits stands for. -/
def ofDigits (digits : List Char) : Nat :=
  digits.foldl (fun n c => 10 * n + Text.digitValue c) 0

/-- The decimal text of an integer of at most `digitLimit` digits. -/
def integerText (n : Int) : Except Fault String :=
  let digits := n.natAbs.repr
  if digits.length ≤ digitLimit then .ok (if n < 0 then "-" ++ digits else digits)
  else .error .textDigits

/-- Blanks that may surround a number. -/
def isBlank (c : Char) : Bool :=
  (0x9 ≤ c.toNat && c.toNat ≤ 0xD) || c == ' ' || c.toNat == 0x85 || c.toNat == 0xA0 ||
    c.toNat == 0x1680 || (0x2000 ≤ c.toNat && c.toNat ≤ 0x200A) || c.toNat == 0x2028 ||
    c.toNat == 0x2029 || c.toNat == 0x202F || c.toNat == 0x205F || c.toNat == 0x3000

/-- The text without the blanks around it. -/
def trim (cs : List Char) : List Char :=
  ((cs.dropWhile isBlank).reverse.dropWhile isBlank).reverse

/-- The sign in front of a number (`true` for minus) and what follows it. -/
def splitSign : List Char → Bool × List Char
  | '-' :: cs => (true, cs)
  | '+' :: cs => (false, cs)
  | cs => (false, cs)

/-- Whether every underscore stands between two digits. -/
def underscoresBetweenDigits : (afterDigit : Bool) → List Char → Bool
  | _, [] => true
  | afterDigit, '_' :: cs =>
    afterDigit && (cs.head?.any Text.isDigit) && underscoresBetweenDigits false cs
  | _, c :: cs => underscoresBetweenDigits (Text.isDigit c) cs

/-- The integer that a text spells. -/
def readInteger (text : String) : Except Fault Int :=
  let (negative, body) := splitSign (trim text.toList)
  let spelled := body.takeWhile fun c => Text.isDigit c || c == '_'
  let digits := spelled.filter Text.isDigit
  if ¬ underscoresBetweenDigits false spelled then .error (.badInteger text)
  else if digitLimit < digits.length then .error (.literalDigits digits.length)
  else if digits = [] ∨ spelled.length < body.length then .error (.badInteger text)
  else .ok (if negative then -(ofDigits digits : Int) else ofDigits digits)

end ScriptLang.Number
