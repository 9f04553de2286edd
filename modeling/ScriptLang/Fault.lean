import ScriptLang.Text.Quoted

/-!
  Faults: what stops a computation from outside the language.

  A runtime error of the language is a value that travels to the end of the program.  A fault is
  different: a limit on digits or the range of a number format was left, or a number token does not
  spell a number, and the computation stops where it stands.
-/

namespace ScriptLang

/-- Most digits an integer may have when it is read from text or written as text. -/
def digitLimit : Nat := 4300

/-- Why a computation stops without a value. -/
inductive Fault
  /-- An integer rounds to a magnitude above the largest double. -/
  | conversionOverflow
  /-- The remainder of an infinite dividend. -/
  | remainderDomain
  /-- An integer literal has `count` digits, which is above the limit. -/
  | literalDigits (count : Nat)
  /-- An integer has too many digits to be written. -/
  | textDigits
  /-- The text of an integer token spells no integer. -/
  | badInteger (text : String)
  /-- The text of a float token spells no number. -/
  | badFloat (text : String)
  /-- A quotient by zero was asked for. -/
  | zeroDivisor
  deriving DecidableEq, Repr

namespace Fault

/-- The wording of a fault. -/
def message : Fault → String
  | conversionOverflow => "int too large to convert to float"
  | remainderDomain => "math domain error"
  | literalDigits count =>
    s!"Exceeds the limit ({digitLimit} digits) for integer string conversion: " ++
      s!"value has {count} digits; use sys.set_int_max_str_digits() to increase the limit"
  | textDigits =>
    s!"Exceeds the limit ({digitLimit} digits) for integer string conversion; " ++
      "use sys.set_int_max_str_digits() to increase the limit"
  | badInteger text =>
    "invalid literal for int() with base 10: " ++ String.ofList ((Text.quote text).toList.take 200)
  | badFloat text => "could not convert string to float: " ++ Text.quote text
  | zeroDivisor => "integer division or modulo by zero"

end Fault

/-- Why a computation with a bound on its steps gives no result: a fault, or the bound was reached
    first.  The bound is no part of the language; a larger one gets further. -/
inductive Halt
  | fault (f : Fault)
  | outOfFuel
  deriving DecidableEq, Repr

end ScriptLang
