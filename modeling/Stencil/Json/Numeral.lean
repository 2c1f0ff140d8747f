import Stencil.Value.Basic

/-!
# JSON numbers

A JSON number without a fraction and an exponent is a whole number if it fits 64
bits, signed or unsigned; every other one is a binary64 number. Its significant
digits are gathered as long as they fit 64 unsigned bits, rounded to binary64 and
then scaled by a rounded power of ten in one rounded multiplication or division.
So the value is within a few units in the last place of the decimal, but not
always the nearest number; this is the rule of a fast reader, and it decides
which number a text denotes here.

A number beyond the largest binary64 number has no value, although its text is
well formed.
-/

namespace Stencil.Json

/-- The parts of the text of a number. -/
structure Numeral where
  negative : Bool
  whole : List Char
  fraction : Option (List Char)
  exponent : Option (Bool × List Char)

/-- The digits gathered so far, as a multiple of a power of ten. -/
structure Significand where
  value : Nat
  exponent : Int

namespace Significand

/-- The first value that does not fit 64 unsigned bits. -/
def limit : Nat := Nat.pow 2 64

/-- The value with one more digit, if it still fits. -/
def append? (value : Nat) (digit : Char) : Option Nat :=
  let longer := 10 * value + Text.digitValue digit
  if longer < limit then some longer else none

/-- Gathers the digits before the point. From the first digit that does not fit
on, each counts as a power of ten. -/
def gatherWhole (value : Nat) : List Char → Significand
  | [] => ⟨value, 0⟩
  | digit :: digits =>
    match append? value digit with
    | some longer => gatherWhole longer digits
    | none => ⟨value, (digits.length + 1 : Nat)⟩

/-- Gathers the digits after the point, up to the first that does not fit. -/
def gatherFraction (gathered : Significand) : List Char → Significand
  | [] => gathered
  | digit :: digits =>
    match append? gathered.value digit with
    | some longer => gatherFraction ⟨longer, gathered.exponent - 1⟩ digits
    | none => gathered

/-- The largest exponent of ten with a finite power. -/
def largestPower : Nat := 308

/-- The rounded product with a power of ten; none if it overflows. -/
def scaleUp? (x : Binary64) (power : Nat) : Option Binary64 :=
  if power ≤ largestPower then (Binary64.ofInt? (Int.pow 10 power)).bind x.mul?
  else if x.mantissa = 0 then some x
  else none

/-- The quotient by a power of ten, rounded after each division by 10^308. The
first argument bounds the number of these divisions: three reach zero from any
64-bit significand. -/
def scaleDown? : (divisions : Nat) → Binary64 → (power : Nat) → Option Binary64
  | divisions, x, power =>
    if power ≤ largestPower then (Binary64.ofInt? (Int.pow 10 power)).bind x.div?
    else if x.mantissa = 0 then some x
    else
      match divisions with
      | 0 => none
      | divisions + 1 => do
        let divisor ← Binary64.ofInt? (Int.pow 10 largestPower)
        let smaller ← x.div? divisor
        scaleDown? divisions smaller (power - largestPower)

/-- The binary64 number of a significand; none if it overflows. -/
def toBinary64? (s : Significand) : Option Binary64 :=
  (Binary64.ofInt? s.value).bind fun x =>
    if s.exponent < 0 then scaleDown? 4 x (-s.exponent).toNat else scaleUp? x s.exponent.toNat

end Significand

namespace Numeral

/-- The first exponent that is not read as a number. -/
def exponentLimit : Nat := Nat.pow 2 31

/-- The power of ten an exponent part adds, kept in the 32-bit signed range. -/
def shiftedBy (negative : Bool) (amount : Nat) (exponent : Int) : Int :=
  let shifted := if negative then exponent - amount else exponent + amount
  max (-Int.pow 2 31) (min shifted (Int.pow 2 31 - 1))

/-- The magnitude of a number with a fraction or an exponent; none if it is too
large. An exponent that does not fit 32 bits makes any magnitude too large or
zero. -/
def magnitude? (gathered : Significand) : Option (Bool × List Char) → Option Binary64
  | none => gathered.toBinary64?
  | some (negative, digits) =>
    let amount := Text.digitsValue digits
    if amount < exponentLimit then
      { gathered with exponent := shiftedBy negative amount gathered.exponent }.toBinary64?
    else if negative || gathered.value == 0 then some (Binary64.zero false)
    else none

/-- The number a text denotes, if it is not too large. A negative zero is not
whole, because no integer has its sign. -/
def toNumber? (text : Numeral) : Option Number :=
  let whole := Significand.gatherWhole 0 text.whole
  let isWhole := text.fraction.isNone && text.exponent.isNone && whole.exponent == 0
  let fits := !text.negative || (0 < whole.value && (whole.value : Int) ≤ -Number.leastInt)
  if isWhole && fits then
    some (.int (if text.negative then -whole.value else whole.value))
  else
    let gathered := whole.gatherFraction (text.fraction.getD [])
    (magnitude? gathered text.exponent).map fun x => .float (if text.negative then x.neg else x)

end Numeral

end Stencil.Json
