import Stencil.Error
import Stencil.Value.Basic

/-!
# Number literals

A number literal is digits with an optional minus sign and an optional fraction.
A point belongs to it only if a digit follows, so that the two points of a range
do not. Without a fraction the literal is a whole number and must fit the 64-bit
signed range; with one it is the nearest binary64 number, or null if there is no
finite one.
-/

namespace Stencil.Markup

/-- The sign at the start of a literal, and the rest. -/
def minus : List Char → Bool × List Char
  | '-' :: rest => (true, rest)
  | text => (false, text)

/-- The digits of a fraction, if a point and a digit come next. -/
def fraction? : List Char → Option (List Char × List Char)
  | '.' :: text =>
    match Text.spanDigits text with
    | ([], _) => none
    | found => some found
  | _ => none

/-- The value of a literal with a fraction. -/
def fractionValue (negative : Bool) (whole fraction : List Char) : Value :=
  match Extended.ofDecimal negative (Text.digitsValue (whole ++ fraction)) (-fraction.length) with
  | .finite x => .number (.float x)
  | _ => .null

/-- The value of a literal without a fraction, if it fits. -/
def wholeValue? (negative : Bool) (whole : List Char) : Option Value :=
  let magnitude : Int := Text.digitsValue whole
  let n := if negative then -magnitude else magnitude
  if Number.leastInt ≤ n ∧ n ≤ Number.greatestInt then some (.ofInt n) else none

/-- The number literal at the start of a text. -/
def number (text : List Char) : Except SyntaxError (Value × List Char) :=
  let (negative, unsigned) := minus text
  let (whole, afterWhole) := Text.spanDigits unsigned
  match fraction? afterWhole with
  | some (fraction, rest) => .ok (fractionValue negative whole fraction, rest)
  | none =>
    if whole.isEmpty then .error .numberExpected
    else
      match wholeValue? negative whole with
      | some v => .ok (v, afterWhole)
      | none => .error .integerTooLarge

/-- The rest after a sign is no longer than the text. -/
theorem length_minus_le (text : List Char) : (minus text).2.length ≤ text.length := by
  unfold minus
  split <;> simp

/-- A fraction takes at least two characters. -/
theorem length_fraction?_lt {text digits rest : List Char}
    (found : fraction? text = some (digits, rest)) : rest.length < text.length := by
  unfold fraction? at found
  split at found
  · next text =>
    split at found
    · simp at found
    · have spanned := Option.some.inj found
      have shorter := Text.length_spanDigits_le text
      rw [spanned] at shorter
      exact Nat.lt_succ_of_le shorter
  · simp at found

/-- A number literal takes at least one character. -/
theorem length_number_lt {text rest : List Char} {v : Value}
    (found : number text = .ok (v, rest)) : rest.length < text.length := by
  unfold number at found
  have signLength := length_minus_le text
  have wholeLength := Text.length_spanDigits_le (minus text).2
  simp only at found
  split at found
  · next fractionFound =>
    simp only [Except.ok.injEq, Prod.mk.injEq] at found
    have fractionLength := length_fraction?_lt fractionFound
    rw [found.2] at fractionLength
    omega
  · split at found
    · simp at found
    · next notEmpty =>
      split at found
      · simp only [Except.ok.injEq, Prod.mk.injEq] at found
        have parts := Text.spanDigits_append (minus text).2
        rw [← found.2]
        have lengths := congrArg List.length parts
        rw [List.length_append] at lengths
        have wholeLength : 0 < (Text.spanDigits (minus text).2).1.length := by
          simpa [List.length_pos_iff] using notEmpty
        omega
      · simp at found

end Stencil.Markup
