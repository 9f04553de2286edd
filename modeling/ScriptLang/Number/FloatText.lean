import ScriptLang.Number.Integer
import ScriptLang.Number.Shortest

/-!
  Doubles as text.

  `floatText` writes the shortest decimal that reads back, positionally or with an exponent as a
  `FloatLayout` says.  `readFloat` reads a decimal with an optional fraction and exponent, rounding
  correctly, and the words for infinity and NaN.
-/

namespace ScriptLang.Number

/-! ## Writing -/

/-- How a double is laid out. -/
structure FloatLayout where
  /-- Numbers whose leading digit has an exponent in this half-open range are written positionally. -/
  positionalFrom : Int
  positionalBelow : Int
  /-- Least number of digits of an exponent. -/
  exponentWidth : Nat
  /-- What follows an integral number that is written positionally. -/
  integralSuffix : String
  nan : String
  infinity : String

/-- The layout of the language: positional from 0.0001 to below 10 ^ 16, exponents with a sign and at
    least two digits. -/
def floatLayout : FloatLayout where
  positionalFrom := -4
  positionalBelow := 16
  exponentWidth := 2
  integralSuffix := ".0"
  nan := "NaN"
  infinity := "Infinity"

/-- The text `n` times in a row. -/
def zeros (n : Nat) : String := String.ofList (List.replicate n '0')

/-- A decimal written positionally. -/
def positional (layout : FloatLayout) (d : Decimal) : String :=
  let digits := d.digits.repr
  if 0 ≤ d.exponent then digits ++ zeros d.exponent.toNat ++ layout.integralSuffix
  else
    let places := (-d.exponent).toNat
    if places < digits.length then
      let whole := digits.length - places
      String.ofList (digits.toList.take whole) ++ "." ++ String.ofList (digits.toList.drop whole)
    else "0." ++ zeros (places - digits.length) ++ digits

/-- A decimal written with an exponent. -/
def scientific (layout : FloatLayout) (d : Decimal) : String :=
  let digits := d.digits.repr.toList
  let lead := String.ofList (digits.take 1)
  let fraction := if digits.length ≤ 1 then "" else "." ++ String.ofList (digits.drop 1)
  let sign := if d.magnitude < 0 then "-" else "+"
  let exponent := d.magnitude.natAbs.repr
  lead ++ fraction ++ "e" ++ sign ++ zeros (layout.exponentWidth - exponent.length) ++ exponent

/-- The text of a double in a layout. -/
def FloatLayout.text (layout : FloatLayout) (x : Float) : String :=
  match decode x with
  | .nan => layout.nan
  | .infinite negative => (if negative then "-" else "") ++ layout.infinity
  | .finite negative m e =>
    let body :=
      if m = 0 then "0" ++ layout.integralSuffix
      else
        let d := shortest m e
        if layout.positionalFrom ≤ d.magnitude ∧ d.magnitude < layout.positionalBelow then
          positional layout d
        else scientific layout d
    (if negative then "-" else "") ++ body

/-- The text of a double: the fewest digits that read back. -/
def floatText (x : Float) : String := floatLayout.text x

/-- The text of a double as the language displays it: an integral one below 10 ^ 21 looks like the
    integer it is equal to. -/
def displayFloat (x : Float) : String :=
  match toInteger? x with
  | some n => if n.natAbs < Nat.pow 10 21 then n.repr else floatText x
  | none => floatText x

/-! ## Reading -/

/-- The digits in front of a text, underscores left out, and what follows them. -/
def splitDigits (cs : List Char) : List Char × List Char :=
  let run (c : Char) : Bool := Text.isDigit c || c == '_'
  ((cs.takeWhile run).filter Text.isDigit, cs.dropWhile run)

/-- The exponent `e±digits` that makes up the whole of a text, zero for the empty text. -/
def readExponent? : List Char → Option Int
  | [] => some 0
  | c :: cs =>
    if c = 'e' ∨ c = 'E' then
      let (negative, body) := splitSign cs
      match splitDigits body with
      | (d :: ds, []) => some (withSign negative (ofDigits (d :: ds)))
      | _ => none
    else none

/-- The double that an unsigned text spells. -/
def readMagnitude? (negative : Bool) (cs : List Char) : Option Float :=
  let (whole, rest) := splitDigits cs
  let (fraction, rest) :=
    match rest with
    | '.' :: rest => splitDigits rest
    | rest => ([], rest)
  if whole = [] ∧ fraction = [] then none
  else
    (readExponent? rest).map fun e =>
      ofDecimal negative (ofDigits (whole ++ fraction)) (e - fraction.length)

/-- The double that a text spells. -/
def readFloat (text : String) : Except Fault Float :=
  let cs := trim text.toList
  let (negative, body) := splitSign cs
  let word := String.ofList (body.map Char.toLower)
  let read? :=
    if word = "inf" ∨ word = "infinity" then some (encode negative (Nat.pow 2 1024) 1)
    else if word = "nan" then some (0.0 / 0.0)
    else if underscoresBetweenDigits false body then readMagnitude? negative body
    else none
  match read? with
  | some x => .ok x
  | none => .error (.badFloat text)

end ScriptLang.Number
