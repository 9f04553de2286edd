import ScriptLang.Fault

/-!
  Doubles as exact numbers.

  A finite double is `± mantissa · 2 ^ exponent`.  `decode` reads that off the bits, `encode` goes
  from a nonnegative ratio of two numbers to the nearest double, a tie going to the even mantissa.
  Between the two, conversion of integers and decimals, comparison with integers and the remainder
  are exact arithmetic on integers.
-/

namespace ScriptLang.Number

/-- What the bits of a double say. -/
inductive Binary64
  | nan
  | infinite (negative : Bool)
  /-- The number `± mantissa · 2 ^ exponent`. -/
  | finite (negative : Bool) (mantissa : Nat) (exponent : Int)
  deriving DecidableEq, Repr

/-- The least exponent of a finite double. -/
def minExponent : Int := -1074

/-- The bits of positive infinity; every finite magnitude has smaller ones. -/
def infinityBits : Nat := 0x7FF0000000000000

/-- The bit of the sign. -/
def signBit : Nat := 0x8000000000000000

/-- Reads a double exactly. -/
def decode (x : Float) : Binary64 :=
  let bits := x.toBits.toNat
  let negative := decide (signBit ≤ bits)
  let field : Nat := bits / Nat.pow 2 52 % Nat.pow 2 11
  let fraction : Nat := bits % Nat.pow 2 52
  if field = 2047 then if fraction = 0 then .infinite negative else .nan
  else if field = 0 then .finite negative fraction minExponent
  else .finite negative (Nat.pow 2 52 + fraction) (field + minExponent - 1)

/-- The quotient of two numbers rounded to the nearest one, a tie to the even one. -/
def roundHalfEven (num den : Nat) : Nat :=
  let q := num / den
  let r := num % den
  if 2 * r < den then q else if den < 2 * r then q + 1 else q + q % 2

/-- `num · 2 ^ e / den` as a ratio. -/
def scaleRatio (num den : Nat) (e : Int) : Nat × Nat :=
  if 0 ≤ e then (num * Nat.pow 2 e.toNat, den) else (num, den * Nat.pow 2 (-e).toNat)

/-- The bits of the double nearest to `num / den`, at least `infinityBits` if there is none.  With
    the exponent chosen so that the quotient has 53 bits, or fewer at the least exponent, a mantissa
    that rounds up to 2 ^ 53 carries into the exponent field by itself. -/
def nearestBits (num den : Nat) : Nat :=
  if num = 0 then 0
  else
    let guess := max ((num.log2 : Int) - den.log2 - 53) minExponent
    let (n, d) := scaleRatio num den (-guess)
    let exponent := if n / d < Nat.pow 2 53 then guess else guess + 1
    let (n, d) := scaleRatio num den (-exponent)
    (exponent - minExponent).toNat * Nat.pow 2 52 + roundHalfEven n d

/-- The double with the given sign nearest to `num / den`, infinity if that is out of range. -/
def encode (negative : Bool) (num den : Nat) : Float :=
  let bits := min (nearestBits num den) infinityBits
  Float.ofBits (UInt64.ofNat (if negative then signBit + bits else bits))

/-- The double nearest to an integer, unless it is out of range. -/
def ofInteger (n : Int) : Except Fault Float :=
  if infinityBits ≤ nearestBits n.natAbs 1 then .error .conversionOverflow
  else .ok (encode (n < 0) n.natAbs 1)

/-- The double nearest to `± m · 10 ^ e`.  Magnitudes far out of range are not computed. -/
def ofDecimal (negative : Bool) (m : Nat) (e : Int) : Float :=
  let magnitude := (m.repr.length : Int) + e
  if m = 0 ∨ magnitude < -400 then encode negative 0 1
  else if 400 < magnitude then encode negative (Nat.pow 2 1024) 1
  else if 0 ≤ e then encode negative (m * Nat.pow 10 e.toNat) 1
  else encode negative m (Nat.pow 10 (-e).toNat)

/-- A number with a sign. -/
def withSign (negative : Bool) (n : Nat) : Int := if negative then -n else n

/-- Whether a double and an integer are the same number. -/
def equalsInteger (x : Float) (n : Int) : Bool :=
  match decode x with
  | .finite negative m e =>
    let (num, den) := scaleRatio m 1 e
    withSign negative num == n * den
  | _ => false

/-- The integer a double is equal to, if there is one. -/
def toInteger? (x : Float) : Option Int :=
  match decode x with
  | .finite negative m e =>
    let (num, den) := scaleRatio m 1 e
    if num % den = 0 then some (withSign negative (num / den)) else none
  | _ => none

/-- The remainder of a division that rounds towards zero.  It has the sign of the dividend and is
    always exact.  A NaN on either side gives a NaN, and an infinite divisor leaves the dividend as
    it is. -/
def remainder (x y : Float) : Except Fault Float :=
  match decode x, decode y with
  | .nan, _ => .ok x
  | _, .nan => .ok y
  | .infinite _, _ => .error .remainderDomain
  | .finite .., .infinite _ => .ok x
  | .finite negative m e, .finite _ m' e' =>
    let low := min e e'
    let r := (m * Nat.pow 2 (e - low).toNat) % (m' * Nat.pow 2 (e' - low).toNat)
    let (num, den) := scaleRatio r 1 low
    .ok (encode negative num den)

end ScriptLang.Number
