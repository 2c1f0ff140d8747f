import Stencil.Binary64.Basic
import Stencil.Text.Digits

/-!
# Reading decimals

A decimal text denotes the binary64 number nearest to its exact value, where the
exponent is read only up to the digit with which it reaches 2^16. Beyond the finite
numbers it denotes an infinity, and a text can also name an infinity or the value
that is not a number. These extended values occur only while texts are read and
compared; a template value holds finite numbers alone.
-/

namespace Stencil

/-- What a numeric text can denote. -/
inductive Extended where
  | finite (x : Binary64)
  | infinite (negative : Bool)
  | nan
  deriving DecidableEq, Repr

namespace Extended

/-- The value of `digits * 10 ^ exponent`. The digits are less than `8 ^ (bits / 3 + 1)`
and at least `16 ^ (bits / 4)`, so the first two cases are far outside the finite
numbers; they keep powers of ten small. -/
def ofDecimal (negative : Bool) (digits : Nat) (exponent : Int) : Extended :=
  let bits := digits.log2
  if digits = 0 ∨ exponent + (bits / 3 : Nat) < -400 then .finite (Binary64.zero negative)
  else if 400 < exponent + (bits / 4 : Nat) then .infinite negative
  else
    let num := digits * Nat.pow 10 exponent.toNat
    let den := Nat.pow 10 (-exponent).toNat
    match Binary64.nearest? negative num den with
    | some x => .finite x
    | none => .infinite negative

/-- The least exponent that no further digit is added to. -/
def exponentLimit : Nat := Nat.pow 2 16

/-- The number that the digits of an exponent denote, up to the digit with which it
reaches the limit. -/
def exponentValue (digits : List Char) : Nat :=
  digits.foldl
    (fun value c => if value < exponentLimit then 10 * value + Text.digitValue c else value) 0

/-- The digits of an exponent, at least one and nothing else. -/
def exponentDigits? (text : List Char) : Option Nat :=
  if text.isEmpty || !text.all Char.isDigit then none else some (exponentValue text)

/-- The exponent part of a decimal: absent, or `e` with an optional sign and at
least one digit. -/
def exponent? : List Char → Option Int
  | [] => some 0
  | c :: rest => if c = 'e' ∨ c = 'E' then Text.signed? exponentDigits? rest else none

/-- A decimal without its sign: digits, a point or both, with a digit on at least
one side, and an exponent. -/
def unsignedDecimal? (negative : Bool) (text : List Char) : Option Extended :=
  let (whole, afterWhole) := Text.spanDigits text
  let (fraction, afterFraction) :=
    match afterWhole with
    | '.' :: rest => Text.spanDigits rest
    | rest => ([], rest)
  if whole.isEmpty && fraction.isEmpty then none
  else
    (exponent? afterFraction).map fun exponent =>
      ofDecimal negative (Text.digitsValue (whole ++ fraction)) (exponent - fraction.length)

/-- The names of the values that are not finite, in any case of their letters. -/
def named? (negative : Bool) (text : List Char) : Option Extended :=
  match String.ofList (text.map Char.toLower) with
  | "inf" => some (.infinite negative)
  | "infinity" => some (.infinite negative)
  | "nan" => some .nan
  | _ => none

/-- A decimal or a name, without its sign. -/
def unsigned? (negative : Bool) (text : List Char) : Option Extended :=
  (unsignedDecimal? negative text).or (named? negative text)

/-- The value a whole text denotes. Nothing may surround it. -/
def ofText? (text : List Char) : Option Extended :=
  match text with
  | '-' :: rest => unsigned? true rest
  | '+' :: rest => unsigned? false rest
  | rest => unsigned? false rest

end Extended

end Stencil
