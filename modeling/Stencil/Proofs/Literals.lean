import Stencil.Markup.Literal
import Stencil.Proofs.Decimals
import Stencil.Proofs.Nearest
import Stencil.Proofs.Words

/-!
# The grammar of number literals

A number literal is an optional minus sign and digits, with a fraction or without one.
Without a fraction it denotes the integer that its digits denote in base ten, with the sign,
and this has to fit the 64-bit range. With a fraction it denotes the binary64 number that is
nearest to the exact decimal, or null if that is beyond the finite ones; the digits before the
point can be missing after a sign.

The main statements are that the reader of literals takes a literal from the front of a
text, and that it takes any literal whole if nothing goes on with it.
-/

namespace Stencil

/-- What a numeric text stands for as a value: nothing but finite numbers are values. -/
def Extended.toValue : Extended → Value
  | .finite x => .number (.float x)
  | _ => .null

namespace Markup

/-! ### What a literal is -/

/-- A text of digits only. -/
def Digits (text : List Char) : Prop := ∀ c ∈ text, c.isDigit = true

instance : DecidablePred Digits := fun text => List.decidableBAll (Char.isDigit · = true) text

/-- The sign of a literal as it is written. -/
def signText (negative : Bool) : List Char := if negative then ['-'] else []

/-- The integer that digits denote after a sign. -/
def signedDecimal (negative : Bool) (digits : List Char) : Int :=
  if negative then -Text.decimal digits else Text.decimal digits

/-- The value that a number literal denotes. -/
inductive SpellsNumber : List Char → Value → Prop where
  | whole {negative : Bool} {digits : List Char} (inside : Digits digits)
      (nonempty : digits ≠ []) (least : -2 ^ 63 ≤ signedDecimal negative digits)
      (greatest : signedDecimal negative digits < 2 ^ 63) :
      SpellsNumber (signText negative ++ digits) (.number (.int (signedDecimal negative digits)))
  | fraction {negative : Bool} {whole fraction : List Char} {x : Extended}
      (insideWhole : Digits whole) (inside : Digits fraction) (nonempty : fraction ≠ [])
      (leading : whole = [] → negative = true)
      (rounds : x.Rounds negative (Text.decimal (whole ++ fraction) / 10 ^ fraction.length)) :
      SpellsNumber (signText negative ++ (whole ++ '.' :: fraction)) x.toValue

/-- The characters of which numbers are made. -/
def InNumber (c : Char) : Prop := c = '-' ∨ c = '.' ∨ c.isDigit = true

theorem inNumber_of_signText {negative : Bool} {c : Char} (member : c ∈ signText negative) :
    InNumber c := by
  cases negative with
  | false => cases member
  | true => exact .inl (List.mem_singleton.mp member)

/-- Only signs, points and digits stand in a literal. -/
theorem SpellsNumber.inNumber {text : List Char} {v : Value} (spelled : SpellsNumber text v) :
    ∀ c ∈ text, InNumber c := by
  intro c member
  cases spelled with
  | whole inside =>
    rcases List.mem_append.mp member with member | member
    · exact inNumber_of_signText member
    · exact .inr (.inr (inside c member))
  | fraction insideWhole inside =>
    rcases List.mem_append.mp member with member | member
    · exact inNumber_of_signText member
    · rcases List.mem_append.mp member with member | member
      · exact .inr (.inr (insideWhole c member))
      · exact (List.mem_cons.mp member).elim (fun point => .inr (.inl point)) fun member =>
          .inr (.inr (inside c member))

/-- A run of digits that is not empty starts with one. -/
theorem Digits.exists_cons {digits : List Char} (inside : Digits digits)
    (nonempty : digits ≠ []) :
    ∃ c more, digits = c :: more ∧ c.isDigit = true := by
  obtain ⟨c, more, rfl⟩ := List.exists_cons_of_ne_nil nonempty
  exact ⟨c, more, rfl, inside c List.mem_cons_self⟩

/-- A literal starts with its sign or with a digit. -/
theorem SpellsNumber.exists_cons {text : List Char} {v : Value} (spelled : SpellsNumber text v) :
    ∃ c more, text = c :: more ∧ (c = '-' ∨ c.isDigit = true) := by
  have signed (more : List Char) : ∃ c rest,
      signText true ++ more = c :: rest ∧ (c = '-' ∨ c.isDigit = true) :=
    ⟨'-', more, rfl, .inl rfl⟩
  have unsigned {digits : List Char} (inside : Digits digits) (nonempty : digits ≠ [])
      (more : List Char) : ∃ c rest,
      signText false ++ (digits ++ more) = c :: rest ∧ (c = '-' ∨ c.isDigit = true) := by
    obtain ⟨c, rest, rfl, digit⟩ := inside.exists_cons nonempty
    exact ⟨c, rest ++ more, rfl, .inr digit⟩
  cases spelled with
  | @whole negative digits inside nonempty =>
    cases negative with
    | true => exact signed digits
    | false => simpa only [List.append_nil] using unsigned inside nonempty []
  | @fraction negative whole _ _ insideWhole _ _ leading =>
    cases negative with
    | true => exact signed _
    | false => exact unsigned insideWhole (fun none => Bool.false_ne_true (leading none)) _

/-! ### The parts of a literal -/

/-- The digits of a text that goes on with something else. -/
theorem spanDigits_eq {digits rest : List Char} (inside : Digits digits)
    (ends : ∀ c ∈ rest.head?, c.isDigit = false) :
    Text.spanDigits (digits ++ rest) = (digits, rest) :=
  Prod.ext (span_append inside ends).1 (span_append inside ends).2

/-- The digits that are found are digits. -/
theorem digits_of_spanDigits {text digits rest : List Char}
    (spanned : Text.spanDigits text = (digits, rest)) : text = digits ++ rest ∧ Digits digits := by
  cases spanned
  exact ⟨List.takeWhile_append_dropWhile.symm, fun c member => List.mem_takeWhile_imp member⟩

/-- A fraction is a point and digits, at least one. -/
theorem fraction?_eq_some {text fraction rest : List Char}
    (found : fraction? text = some (fraction, rest)) :
    text = '.' :: (fraction ++ rest) ∧ Digits fraction ∧ fraction ≠ [] := by
  unfold fraction? at found
  split at found
  · next text =>
    split at found
    · cases found
    · next parts notEmpty =>
      obtain ⟨rfl, inside⟩ := digits_of_spanDigits (Option.some.inj found)
      refine ⟨rfl, inside, ?_⟩
      rintro rfl
      exact notEmpty _ (Option.some.inj found)
  · cases found

/-- A point and digits are a fraction. -/
theorem fraction?_append {fraction rest : List Char} (inside : Digits fraction)
    (nonempty : fraction ≠ []) (ends : ∀ c ∈ rest.head?, c.isDigit = false) :
    fraction? ('.' :: (fraction ++ rest)) = some (fraction, rest) := by
  cases fraction with
  | nil => exact absurd rfl nonempty
  | cons c fraction => simp only [fraction?, spanDigits_eq inside ends]

/-- A sign is read off a text that does not start with another one. -/
theorem minus_signText (negative : Bool) {text : List Char} (unsigned : text.head? ≠ some '-') :
    minus (signText negative ++ text) = (negative, text) := by
  cases negative with
  | true => rfl
  | false =>
    change minus text = _
    unfold minus
    split
    · exact absurd rfl unsigned
    · rfl

/-- The sign that is read off a text stands in front of it. -/
theorem minus_eq {text unsigned : List Char} {negative : Bool}
    (read : minus text = (negative, unsigned)) : text = signText negative ++ unsigned := by
  unfold minus at read
  split at read <;> cases read <;> rfl

/-! ### The values of literals -/

/-- A literal without a fraction has a value exactly if the integer that it denotes fits. -/
theorem wholeValue?_eq (negative : Bool) (digits : List Char) :
    wholeValue? negative digits =
      if -2 ^ 63 ≤ signedDecimal negative digits ∧ signedDecimal negative digits < 2 ^ 63 then
        some (.number (.int (signedDecimal negative digits))) else none := by
  have least : Number.leastInt = -2 ^ 63 := by decide
  have greatest : Number.greatestInt = 2 ^ 63 - 1 := by decide
  unfold wholeValue? signedDecimal
  dsimp only
  rw [Text.digitsValue_eq_decimal, least, greatest]
  simp only [Int.le_sub_one_iff]
  rfl

/-- A literal with a fraction has the value that its exact decimal is rounded to. -/
theorem exists_rounds (negative : Bool) (whole fraction : List Char) :
    ∃ x : Extended, x.Rounds negative (Text.decimal (whole ++ fraction) / 10 ^ fraction.length) ∧
      fractionValue negative whole fraction = x.toValue := by
  have rounds := Extended.ofDecimal_rounds negative (Text.decimal (whole ++ fraction))
    (-fraction.length)
  rw [zpow_neg, zpow_natCast, ← div_eq_mul_inv] at rounds
  refine ⟨_, rounds, ?_⟩
  unfold fractionValue
  rw [Text.digitsValue_eq_decimal]
  rfl

/-- There is only one such value. -/
theorem fractionValue_eq {negative : Bool} {whole fraction : List Char} {x : Extended}
    (rounds : x.Rounds negative (Text.decimal (whole ++ fraction) / 10 ^ fraction.length)) :
    fractionValue negative whole fraction = x.toValue := by
  obtain ⟨y, roundsToo, value⟩ := exists_rounds negative whole fraction
  rw [value, roundsToo.unique rounds]

/-! ### Reading literals -/

/-- What is read as a number is a literal, unless it starts with its point. -/
theorem exists_spellsNumber {text rest : List Char} {v : Value} (digit : text.head? ≠ some '.')
    (read : number text = .ok (v, rest)) :
    ∃ used, text = used ++ rest ∧ SpellsNumber used v := by
  unfold number at read
  cases signed : minus text with
  | mk negative unsigned =>
  cases spanned : Text.spanDigits unsigned with
  | mk whole afterWhole =>
    simp only [signed, spanned] at read
    obtain ⟨rfl, insideWhole⟩ := digits_of_spanDigits spanned
    obtain rfl := minus_eq signed
    split at read
    · next fraction after found =>
      cases read
      obtain ⟨rfl, inside, nonempty⟩ := fraction?_eq_some found
      have leading : whole = [] → negative = true := by
        rintro rfl
        cases negative with
        | true => rfl
        | false => exact absurd rfl digit
      refine ⟨signText negative ++ (whole ++ '.' :: fraction), by simp, ?_⟩
      obtain ⟨x, rounds, value⟩ := exists_rounds negative whole fraction
      rw [value]
      exact .fraction insideWhole inside nonempty leading rounds
    · split at read
      · cases read
      · next nonempty =>
        have nonempty : whole ≠ [] := by simpa using nonempty
        split at read
        · next v fits =>
          cases read
          refine ⟨signText negative ++ whole, by simp, ?_⟩
          rw [wholeValue?_eq] at fits
          split at fits
          · next range =>
            cases fits
            exact .whole insideWhole nonempty range.1 range.2
          · cases fits
        · cases read

/-- A text with which no number before it goes on. -/
structure EndsNumber (rest : List Char) : Prop where
  digit : ∀ c ∈ rest.head?, c.isDigit = false
  point : fraction? rest = none

/-- A literal is read whole if nothing goes on with it. -/
theorem SpellsNumber.number_append {text rest : List Char} {v : Value}
    (spelled : SpellsNumber text v) (ends : EndsNumber rest) :
    number (text ++ rest) = .ok (v, rest) := by
  cases spelled with
  | @whole negative digits inside nonempty least greatest =>
    have unsigned : (digits ++ rest).head? ≠ some '-' := by
      obtain ⟨c, more, rfl, digit⟩ := inside.exists_cons nonempty
      rintro ⟨⟩
      exact absurd digit (by decide)
    have notEmpty : digits.isEmpty = false := List.isEmpty_eq_false_iff.mpr nonempty
    have fits := (wholeValue?_eq negative digits).trans (if_pos ⟨least, greatest⟩)
    rw [List.append_assoc]
    simp only [number, minus_signText negative unsigned, spanDigits_eq inside ends.digit,
      ends.point, notEmpty, Bool.false_eq_true, if_false, fits]
  | @fraction negative whole fraction x insideWhole inside nonempty leading rounds =>
    have point : ∀ c ∈ ('.' :: (fraction ++ rest)).head?, c.isDigit = false := by
      rintro _ ⟨⟩
      decide
    have unsigned : (whole ++ '.' :: (fraction ++ rest)).head? ≠ some '-' := by
      cases whole with
      | nil => exact fun head => absurd (Option.some.inj head) (by decide)
      | cons c whole =>
        rintro ⟨⟩
        exact absurd (insideWhole '-' List.mem_cons_self) (by decide)
    rw [List.append_assoc, List.append_assoc, List.cons_append]
    simp only [number, minus_signText negative unsigned, spanDigits_eq insideWhole point,
      fraction?_append inside nonempty ends.digit, fractionValue_eq rounds]

end Markup

end Stencil
