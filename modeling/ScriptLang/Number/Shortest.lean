import ScriptLang.Number.Binary64

/-!
  The shortest decimal that reads back as a double.

  The reals that round to a double form an interval around it; its ends belong to it when the
  mantissa is even.  For one digit, two digits and so on the double has two neighbours on the grid
  of decimals with that many digits.  The first grid with a neighbour inside the interval is taken,
  of two such neighbours the nearer one.  Seventeen digits always suffice.
-/

namespace ScriptLang.Number

/-- The decimal `digits · 10 ^ exponent`. -/
structure Decimal where
  digits : Nat
  exponent : Int
  deriving DecidableEq, Repr

namespace Decimal

/-- The number of decimal digits. -/
def width (d : Decimal) : Nat := d.digits.repr.length

/-- The exponent of the leading digit. -/
def magnitude (d : Decimal) : Int := d.exponent + d.width - 1

/-- The same number without zeros at the end; `fuel` bounds how many are dropped. -/
def trimZeros : (fuel : Nat) → Decimal → Decimal
  | 0, d => d
  | fuel + 1, d =>
    if d.digits ≠ 0 ∧ d.digits % 10 = 0 then trimZeros fuel ⟨d.digits / 10, d.exponent + 1⟩ else d

end Decimal

/-- `10 ^ e` as a ratio. -/
def tenTo (e : Int) : Nat × Nat := if 0 ≤ e then (Nat.pow 10 e.toNat, 1) else (1, Nat.pow 10 (-e).toNat)

/-- The exponent of the leading decimal digit of `num / den`, for positive numbers. -/
def leadingExponent (num den : Nat) : Int :=
  if den ≤ num then ((num / den).repr.length : Int) - 1
  else
    let width := (den / num).repr.length
    if den ≤ num * Nat.pow 10 (width - 1) then 1 - (width : Int) else -(width : Int)

/-- The reals that round to `mantissa · 2 ^ exponent`, in units of `2 ^ (exponent - 2)`.  Below a
    power of two the doubles lie twice as dense. -/
structure RoundingInterval where
  low : Nat
  value : Nat
  high : Nat
  closed : Bool

/-- The interval of a positive double. -/
def roundingInterval (mantissa : Nat) (exponent : Int) : RoundingInterval where
  low := if mantissa = Nat.pow 2 52 ∧ minExponent < exponent then 4 * mantissa - 1 else 4 * mantissa - 2
  value := 4 * mantissa
  high := 4 * mantissa + 2
  closed := mantissa % 2 = 0

/-- Whether `num / den` lies in the interval whose unit is already part of the ratio. -/
def RoundingInterval.contains (i : RoundingInterval) (num den : Nat) : Bool :=
  if i.closed then i.low * den ≤ num && num ≤ i.high * den
  else i.low * den < num && num < i.high * den

/-- The neighbour of the double on the grid of multiples of `10 ^ e` that reads back as it. -/
def neighbour? (i : RoundingInterval) (unit : Int) (e : Int) : Option Decimal :=
  let (tenNum, tenDen) := tenTo e
  -- one step of the grid is `stepNum / stepDen` units of the interval
  let (stepNum, stepDen) := scaleRatio tenNum tenDen (-unit)
  let below := i.value * stepDen / stepNum
  let above := below + 1
  let hitBelow := i.contains (below * stepNum) stepDen
  let hitAbove := i.contains (above * stepNum) stepDen
  let gapBelow := i.value * stepDen - below * stepNum
  let gapAbove := above * stepNum - i.value * stepDen
  if hitBelow && hitAbove then
    if gapBelow < gapAbove || (gapBelow == gapAbove && below % 2 == 0) then some ⟨below, e⟩
    else some ⟨above, e⟩
  else if hitBelow then some ⟨below, e⟩
  else if hitAbove then some ⟨above, e⟩
  else none

/-- The shortest decimal that reads back as the positive double `mantissa · 2 ^ exponent`. -/
def shortest (mantissa : Nat) (exponent : Int) : Decimal :=
  let i := roundingInterval mantissa exponent
  let unit := exponent - 2
  let (num, den) := scaleRatio mantissa 1 exponent
  let lead := leadingExponent num den
  let found := (List.range 17).findSome? fun (n : Nat) => neighbour? i unit (lead - n)
  (found.getD ⟨mantissa, exponent⟩).trimZeros 20

end ScriptLang.Number
