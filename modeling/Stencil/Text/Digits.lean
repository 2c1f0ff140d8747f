/-!
# Decimal digits

Runs of the ten ASCII digits and the numbers they denote. Digits of other
scripts are not digits here.
-/

namespace Stencil.Text

/-- The value of a decimal digit. -/
def digitValue (c : Char) : Nat := c.toNat - '0'.toNat

/-- The number a run of digits denotes, following digits already read. -/
def digitsValueFrom (read : Nat) (digits : List Char) : Nat :=
  digits.foldl (fun value c => 10 * value + digitValue c) read

/-- The number a run of digits denotes, which is halved the given number of times. The
numbers of the halves are joined by one product, so a long run takes few products
of long numbers. -/
def digitsValueHalving : (halvings : Nat) → (digits : List Char) → Nat
  | 0, digits => digitsValueFrom 0 digits
  | halvings + 1, digits =>
    let low := digits.length / 2
    let high := digits.length - low
    digitsValueHalving halvings (digits.take high) * Nat.pow 10 low +
      digitsValueHalving halvings (digits.drop high)

/-- The number a run of digits denotes; an empty run denotes zero. -/
def digitsValue (digits : List Char) : Nat :=
  digitsValueHalving (digits.length / 16).log2 digits

/-- Digits already read count as often as the place after the new ones says. -/
theorem digitsValueFrom_eq (read : Nat) (digits : List Char) :
    digitsValueFrom read digits = read * Nat.pow 10 digits.length + digitsValueFrom 0 digits := by
  induction digits generalizing read with
  | nil => simp [digitsValueFrom]
  | cons c digits inductionHypothesis =>
    have first := inductionHypothesis (10 * read + digitValue c)
    have second := inductionHypothesis (digitValue c)
    simp only [digitsValueFrom, List.foldl_cons, List.length_cons, Nat.mul_zero,
      Nat.zero_add] at first second ⊢
    rw [first, second, Nat.pow_eq, Nat.pow_eq, Nat.pow_succ, Nat.add_mul, Nat.mul_comm 10 read,
      Nat.mul_assoc, Nat.mul_comm 10, Nat.add_assoc]

/-- Halving does not change the number. -/
theorem digitsValueHalving_eq (halvings : Nat) (digits : List Char) :
    digitsValueHalving halvings digits = digitsValueFrom 0 digits := by
  induction halvings generalizing digits with
  | zero => rfl
  | succ halvings inductionHypothesis =>
    simp only [digitsValueHalving, inductionHypothesis]
    have lowLength :
        (digits.drop (digits.length - digits.length / 2)).length = digits.length / 2 := by
      rw [List.length_drop]
      omega
    have joined := digitsValueFrom_eq
      (digitsValueFrom 0 (digits.take (digits.length - digits.length / 2)))
      (digits.drop (digits.length - digits.length / 2))
    rw [lowLength] at joined
    rw [← joined]
    unfold digitsValueFrom
    rw [← List.foldl_append, List.take_append_drop]

/-- The number of a run is read digit by digit. -/
theorem digitsValue_eq (digits : List Char) : digitsValue digits = digitsValueFrom 0 digits :=
  digitsValueHalving_eq _ _

/-- The digits at the start of a text, and the rest. -/
def spanDigits (text : List Char) : List Char × List Char :=
  (text.takeWhile Char.isDigit, text.dropWhile Char.isDigit)

/-- The digits and the rest are the text. -/
theorem spanDigits_append (text : List Char) :
    (spanDigits text).1 ++ (spanDigits text).2 = text :=
  List.takeWhile_append_dropWhile

/-- The rest after the digits is no longer than the text. -/
theorem length_spanDigits_le (text : List Char) :
    (spanDigits text).2.length ≤ text.length :=
  (List.dropWhile_sublist Char.isDigit).length_le

/-- A run that is not empty leaves a shorter rest. -/
theorem length_lt_of_spanDigits {text digits rest : List Char} {c : Char}
    (spanned : spanDigits text = (c :: digits, rest)) : rest.length < text.length := by
  have parts := spanDigits_append text
  rw [spanned] at parts
  simp only at parts
  rw [← parts]
  simp only [List.cons_append, List.length_cons, List.length_append]
  omega

/-- The number of a run of digits that is not empty and is the whole text. -/
def readNat? (text : List Char) : Option Nat :=
  if text.isEmpty || !text.all Char.isDigit then none else some (digitsValue text)

/-- A number with an optional sign; the digits are read by a given rule. -/
def signed? (read? : List Char → Option Nat) (text : List Char) : Option Int :=
  match text with
  | '-' :: digits => (read? digits).map fun (n : Nat) => -(n : Int)
  | '+' :: digits => (read? digits).map Int.ofNat
  | digits => (read? digits).map Int.ofNat

/-- A whole number with an optional sign, and nothing else. -/
def readInt? (text : List Char) : Option Int := signed? readNat? text

end Stencil.Text
