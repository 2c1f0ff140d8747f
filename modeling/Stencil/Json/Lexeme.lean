import Stencil.Json.Numeral

/-!
# JSON lexemes

A JSON text is cut into marks, the three words, numerals and strings. White space
between them is the space, the tab and the two line ends; any other character
outside a string is refused. A lexeme's form is checked here, its value is not:
a string may hold surrogate halves that denote no character, and a numeral may be
too large.
-/

namespace Stencil.Json

/-- What one escape or character of a string stands for. -/
inductive Unit16 where
  | char (c : Char)
  | highHalf (n : Nat)
  | lowHalf (n : Nat)
  deriving DecidableEq, Repr

namespace Unit16

/-- The unit that a four digit escape denotes. -/
def ofCode (n : Nat) : Unit16 :=
  if 0xD800 ≤ n ∧ n < 0xDC00 then .highHalf n
  else if 0xDC00 ≤ n ∧ n < 0xE000 then .lowHalf n
  else .char (Char.ofNat n)

/-- The characters of a string. A high half needs a low half right after it, and a
low half needs a high half right before it. -/
def join : List Unit16 → Option (List Char)
  | [] => some []
  | .char c :: rest => (join rest).map (c :: ·)
  | .highHalf high :: .lowHalf low :: rest =>
    (join rest).map (Char.ofNat (0x10000 + (high - 0xD800) * 0x400 + (low - 0xDC00)) :: ·)
  | _ => none

end Unit16

/-- The smallest parts of a JSON text. -/
inductive Lexeme where
  | openArray
  | closeArray
  | openObject
  | closeObject
  | comma
  | colon
  | null
  | bool (b : Bool)
  | numeral (n : Numeral)
  | string (units : List Unit16)

/-- White space between lexemes. -/
def isBlank (c : Char) : Bool := c = ' ' || c = '\t' || c = '\n' || c = '\r'

/-- The value of a hexadecimal digit of either case. -/
def hexValue? (c : Char) : Option Nat :=
  if c.isDigit then some (c.toNat - '0'.toNat)
  else if 'a' ≤ c ∧ c ≤ 'f' then some (c.toNat - 'a'.toNat + 10)
  else if 'A' ≤ c ∧ c ≤ 'F' then some (c.toNat - 'A'.toNat + 10)
  else none

/-- The character a one letter escape denotes. -/
def letterEscape? : Char → Option Char
  | '"' => some '"'
  | '\\' => some '\\'
  | '/' => some '/'
  | 'b' => some '\x08'
  | 'f' => some '\x0c'
  | 'n' => some '\n'
  | 'r' => some '\r'
  | 't' => some '\t'
  | _ => none

/-- Reads a string up to its closing quote. The units read so far come latest
first; control characters must be escaped. -/
def readString? (read : List Unit16) : List Char → Option (List Unit16 × List Char)
  | [] => none
  | '"' :: rest => some (read.reverse, rest)
  | '\\' :: 'u' :: a :: b :: c :: d :: rest =>
    match hexValue? a, hexValue? b, hexValue? c, hexValue? d with
    | some a, some b, some c, some d =>
      readString? (.ofCode (((a * 16 + b) * 16 + c) * 16 + d) :: read) rest
    | _, _, _, _ => none
  | '\\' :: letter :: rest =>
    match letterEscape? letter with
    | some c => readString? (.char c :: read) rest
    | none => none
  | c :: rest => if c.toNat < 0x20 || c = '\\' then none else readString? (.char c :: read) rest

/-- The digits before the point: a lone zero, or digits that do not start with
one. -/
def readWhole? (text : List Char) : Option (List Char × List Char) :=
  match Text.spanDigits text with
  | ([], _) => none
  | ('0' :: _ :: _, _) => none
  | found => some found

/-- A point and at least one digit, if a point comes next. -/
def readFraction? : List Char → Option (Option (List Char) × List Char)
  | '.' :: text =>
    match Text.spanDigits text with
    | ([], _) => none
    | (digits, rest) => some (some digits, rest)
  | text => some (none, text)

/-- An exponent mark, an optional sign and at least one digit, if an exponent mark
comes next. -/
def readExponent? : List Char → Option (Option (Bool × List Char) × List Char)
  | [] => some (none, [])
  | mark :: text =>
    if mark = 'e' || mark = 'E' then
      let (negative, unsigned) :=
        match text with
        | '-' :: rest => (true, rest)
        | '+' :: rest => (false, rest)
        | rest => (false, rest)
      match Text.spanDigits unsigned with
      | ([], _) => none
      | (digits, rest) => some (some (negative, digits), rest)
    else
      some (none, mark :: text)

/-- Reads a numeral after its sign. -/
def readNumeral? (negative : Bool) (text : List Char) : Option (Numeral × List Char) := do
  let (whole, afterWhole) ← readWhole? text
  let (fraction, afterFraction) ← readFraction? afterWhole
  let (exponent, rest) ← readExponent? afterFraction
  return (⟨negative, whole, fraction, exponent⟩, rest)

/-- The lexemes of one character. -/
def mark? : Char → Option Lexeme
  | '[' => some .openArray
  | ']' => some .closeArray
  | '{' => some .openObject
  | '}' => some .closeObject
  | ',' => some .comma
  | ':' => some .colon
  | _ => none

/-- Reads one of the three words. -/
def readWord? : List Char → Option (Lexeme × List Char)
  | 'n' :: 'u' :: 'l' :: 'l' :: rest => some (.null, rest)
  | 't' :: 'r' :: 'u' :: 'e' :: rest => some (.bool true, rest)
  | 'f' :: 'a' :: 'l' :: 's' :: 'e' :: rest => some (.bool false, rest)
  | _ => none

/-- Reads the lexeme that starts with a character. -/
def readLexeme? (c : Char) (rest : List Char) : Option (Lexeme × List Char) :=
  match mark? c with
  | some mark => some (mark, rest)
  | none =>
    if c = '"' then (readString? [] rest).map fun (units, after) => (.string units, after)
    else if c = '-' then (readNumeral? true rest).map fun (n, after) => (.numeral n, after)
    else if c.isDigit then
      (readNumeral? false (c :: rest)).map fun (n, after) => (.numeral n, after)
    else readWord? (c :: rest)

/-- A string ends inside the text it starts in. -/
theorem length_readString?_le (read : List Unit16) (text : List Char) (units : List Unit16)
    (rest : List Char) (found : readString? read text = some (units, rest)) :
    rest.length ≤ text.length := by
  fun_induction readString? read text with
  | case1 => simp at found
  | case2 => simp_all
  | case3 _ _ _ _ _ _ _ _ _ _ _ _ _ _ inductionHypothesis =>
    have := inductionHypothesis found
    simp only [List.length_cons]
    omega
  | case4 => simp at found
  | case5 _ _ _ _ _ _ inductionHypothesis =>
    have := inductionHypothesis found
    simp only [List.length_cons]
    omega
  | case6 => simp at found
  | case7 => simp at found
  | case8 _ _ _ _ _ _ _ inductionHypothesis =>
    have := inductionHypothesis found
    simp only [List.length_cons]
    omega

/-- The digits before the point are at least one character. -/
theorem length_readWhole?_lt (text digits rest : List Char)
    (found : readWhole? text = some (digits, rest)) : rest.length < text.length := by
  unfold readWhole? at found
  split at found
  · simp at found
  · simp at found
  · next notEmpty _ =>
    have spanned := Option.some.inj found
    cases digits with
    | nil => exact (notEmpty _ spanned).elim
    | cons => exact Text.length_lt_of_spanDigits spanned

/-- A fraction ends inside the text it starts in. -/
theorem length_readFraction?_le (text : List Char) (fraction : Option (List Char))
    (rest : List Char) (found : readFraction? text = some (fraction, rest)) :
    rest.length ≤ text.length := by
  unfold readFraction? at found
  split at found
  · next text =>
    split at found
    · simp at found
    · next spanned =>
      simp only [Option.some.injEq, Prod.mk.injEq] at found
      have shorter := Text.length_spanDigits_le text
      rw [spanned, found.2] at shorter
      exact Nat.le_succ_of_le shorter
  · simp_all

/-- An exponent part ends inside the text it starts in. -/
theorem length_readExponent?_le (text : List Char) (exponent : Option (Bool × List Char))
    (rest : List Char) (found : readExponent? text = some (exponent, rest)) :
    rest.length ≤ text.length := by
  unfold readExponent? at found
  split at found
  · simp_all
  · next mark text =>
    split at found
    · generalize signed : (match text with
        | '-' :: rest => (true, rest)
        | '+' :: rest => (false, rest)
        | rest => (false, rest)) = unsigned at found
      have signLength : unsigned.2.length ≤ text.length := by
        rw [← signed]
        split <;> simp
      simp only at found
      split at found
      · simp at found
      · next spanned =>
        simp only [Option.some.injEq, Prod.mk.injEq] at found
        have shorter := Text.length_spanDigits_le unsigned.2
        rw [spanned, found.2] at shorter
        exact Nat.le_succ_of_le (Nat.le_trans shorter signLength)
    · simp_all

/-- A numeral ends inside the text it starts in, after at least one character. -/
theorem length_readNumeral?_lt (negative : Bool) (text : List Char) (n : Numeral)
    (rest : List Char) (found : readNumeral? negative text = some (n, rest)) :
    rest.length < text.length := by
  simp only [readNumeral?, Option.bind_eq_bind, Option.bind_eq_some_iff, Option.pure_def,
    Option.some.injEq, Prod.mk.injEq, Prod.exists] at found
  obtain ⟨whole, afterWhole, wholeFound, fraction, afterFraction, fractionFound, exponent, after,
    exponentFound, -, rfl⟩ := found
  have first := length_readWhole?_lt _ _ _ wholeFound
  have second := length_readFraction?_le _ _ _ fractionFound
  have third := length_readExponent?_le _ _ _ exponentFound
  omega

/-- A word has at least one character. -/
theorem length_readWord?_lt (text : List Char) (lexeme : Lexeme) (rest : List Char)
    (found : readWord? text = some (lexeme, rest)) : rest.length < text.length := by
  unfold readWord? at found
  split at found <;> simp_all <;> omega

/-- What follows a lexeme is no longer than what follows its first character. -/
theorem length_readLexeme?_le (c : Char) (text : List Char) (lexeme : Lexeme)
    (rest : List Char) (found : readLexeme? c text = some (lexeme, rest)) :
    rest.length ≤ text.length := by
  unfold readLexeme? at found
  split at found
  · simp_all
  · split at found
    · simp only [Option.map_eq_some_iff, Prod.mk.injEq, Prod.exists] at found
      obtain ⟨_, _, read, -, rfl⟩ := found
      exact length_readString?_le _ _ _ _ read
    · split at found
      · simp only [Option.map_eq_some_iff, Prod.mk.injEq, Prod.exists] at found
        obtain ⟨_, _, read, -, rfl⟩ := found
        exact Nat.le_of_lt (length_readNumeral?_lt _ _ _ _ read)
      · split at found
        · simp only [Option.map_eq_some_iff, Prod.mk.injEq, Prod.exists] at found
          obtain ⟨_, _, read, -, rfl⟩ := found
          exact Nat.le_of_lt_succ (length_readNumeral?_lt _ _ _ _ read)
        · exact Nat.le_of_lt_succ (length_readWord?_lt _ _ _ found)

/-- The lexemes of a text; none if some part of it is no lexeme. The lexemes read
so far come latest first. -/
def lexemesFrom? (read : List Lexeme) (text : List Char) : Option (List Lexeme) :=
  match text with
  | [] => some read.reverse
  | c :: rest =>
    if isBlank c then lexemesFrom? read rest
    else
      match _ : readLexeme? c rest with
      | none => none
      | some (lexeme, after) => lexemesFrom? (lexeme :: read) after
termination_by text.length
decreasing_by
  · simp
  · have := length_readLexeme?_le c rest _ _ ‹_›
    simp only [List.length_cons]
    omega

/-- The lexemes of a whole text. -/
def lexemes? (text : List Char) : Option (List Lexeme) := lexemesFrom? [] text

end Stencil.Json
