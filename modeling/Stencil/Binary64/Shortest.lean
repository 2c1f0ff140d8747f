import Stencil.Binary64.Basic

/-!
# Shortest decimal text

A number is written with the fewest decimal digits that read back as it; of the
decimals with that many digits the nearest one is taken, and of two equally near
ones the even one. The decimals that read back are those between the midpoints
to the two neighbouring numbers, the midpoints included when the mantissa is
even.

Seventeen significant digits always suffice, so the decimals that read back are
found on the grid of seventeen digits first, as a range of whole numbers. A coarser
grid has a point that reads back if this range holds a multiple of its power of ten,
and the coarsest such grid is taken. Only its two points beside the value can be the
nearest one.
-/

namespace Stencil.Binary64

/-- A decimal with a positive whole number of steps of a power of ten. -/
structure Decimal where
  digits : Nat
  exponent : Int
  deriving DecidableEq, Repr

/-- The magnitudes that read back as a number, with the number's own magnitude,
on an integer scale. -/
structure Interval where
  low : Nat
  value : Nat
  high : Nat
  closed : Bool

/-- Whether a point of the scale reads back. -/
def Interval.holds (span : Interval) (point : Nat) : Bool :=
  if span.closed then span.low ≤ point && point ≤ span.high
  else span.low < point && point < span.high

/-- The interval of a number on the scale whose unit is a quarter of the last
place of the mantissa, divided into `quarter` parts. Below a power of two the
lower neighbour is only half a place away. -/
def interval (x : Binary64) (quarter : Nat) : Interval where
  low := (if x.mantissa = Nat.pow 2 52 ∧ -1074 < x.exponent then 4 * x.mantissa - 1
    else 4 * x.mantissa - 2) * quarter
  value := 4 * x.mantissa * quarter
  high := (4 * x.mantissa + 2) * quarter
  closed := x.mantissa % 2 = 0

/-- The multiple of a grid step that reads back and is nearest to the value, the
even one of two equally near ones. -/
def Interval.gridPoint? (span : Interval) (step : Nat) : Option Nat :=
  let below := span.value / step
  let above := below + 1
  match span.holds (below * step), span.holds (above * step) with
  | false, false => none
  | true, false => some below
  | false, true => some above
  | true, true =>
    let down := span.value - below * step
    let up := above * step - span.value
    some (if down < up ∨ (down = up ∧ below % 2 = 0) then below else above)

/-- The first multiple of a grid step that reads back, if any does. -/
def Interval.first (span : Interval) (step : Nat) : Nat :=
  if span.closed then (span.low + step - 1) / step else span.low / step + 1

/-- The last multiple of a grid step that reads back, if any does. -/
def Interval.last (span : Interval) (step : Nat) : Nat :=
  if span.closed then span.high / step else (span.high - 1) / step

/-- The largest number of zeros, up to a limit, that a number of a range ends with. -/
def mostZeros (first last : Nat) : (limit : Nat) → Nat
  | 0 => 0
  | limit + 1 =>
    if first ≤ last / Nat.pow 10 (limit + 1) * Nat.pow 10 (limit + 1) then limit + 1
    else mostZeros first last limit

/-- The number of decimal digits. A number of some bits has at least three digits for
every ten of them, and only the others are counted. -/
def digitCount (n : Nat) : Nat :=
  let least := 3 * n.log2 / 10
  least + (Nat.toDigits 10 (n / Nat.pow 10 least)).length

/-- The exponent of ten of the leading digit of a positive quotient. -/
def leadingExponent (num den : Nat) : Int :=
  if den ≤ num then (digitCount (num / den) : Int) - 1
  else -(digitCount ((den - 1) / num) : Int)

/-- A power of ten as a numerator and a denominator. -/
def powerOfTen (exponent : Int) : Nat × Nat :=
  if exponent < 0 then (1, Nat.pow 10 (-exponent).toNat) else (Nat.pow 10 exponent.toNat, 1)

/-- The shortest decimal that reads back as the magnitude of a number that is not
zero. -/
def shortest (x : Binary64) : Decimal :=
  let (num, den) := x.ratio
  let grid := leadingExponent num den - 16
  let (stepNum, stepDen) := powerOfTen grid
  let (quarterNum, quarterDen) := scaled 1 1 (2 - x.exponent)
  let span := x.interval (quarterNum * stepDen)
  let finest := stepNum * quarterDen
  let zeros := mostZeros (span.first finest) (span.last finest) 16
  let step := finest * Nat.pow 10 zeros
  ⟨(span.gridPoint? step).getD (span.value / step), grid + zeros⟩

/-- The decimal exponents, of the leading digit, that are written without an
exponent part. -/
structure PlainRange where
  least : Int
  limit : Int

/-- The significant digits without the zeros that end them. -/
def Decimal.significant (d : Decimal) : List Char :=
  ((Nat.toDigits 10 d.digits).reverse.dropWhile (· = '0')).reverse

/-- The exponent of the leading digit. -/
def Decimal.leading (d : Decimal) : Int := d.exponent + digitCount d.digits - 1

/-- Plain text always has a fraction; otherwise one digit stands before the point,
a fraction follows only if there are more digits, and the exponent has a sign and
no padding. -/
def Decimal.text (plain : PlainRange) (d : Decimal) : List Char :=
  let digits := d.significant
  let leading := d.leading
  if plain.least ≤ leading ∧ leading < plain.limit then
    if leading < 0 then
      '0' :: '.' :: (List.replicate (-leading - 1).toNat '0' ++ digits)
    else
      let whole := leading.toNat + 1
      let fraction := digits.drop whole
      digits.take whole ++ List.replicate (whole - digits.length) '0' ++
        '.' :: (if fraction.isEmpty then ['0'] else fraction)
  else
    let fraction := digits.drop 1
    digits.take 1 ++ (if fraction.isEmpty then [] else '.' :: fraction) ++
      'e' :: (if leading < 0 then '-' else '+') :: Nat.toDigits 10 leading.natAbs

/-- The text of a number. A zero keeps its sign. -/
def text (plain : PlainRange) (x : Binary64) : List Char :=
  let unsigned := if x.mantissa = 0 then ['0', '.', '0'] else x.shortest.text plain
  if x.negative then '-' :: unsigned else unsigned

end Stencil.Binary64
