/-!
# White space

The characters that separate words in markup and that trimming removes: the
25 characters with the Unicode property `White_Space`, and no others. The zero
width space, the byte order mark and the information separators are not among
them.

The main statements say what trimming keeps: the text without its longest white
run at one end.
-/

namespace Stencil.Text

/-- The Unicode property `White_Space`. Three of its members are ranges. -/
def isWhite (c : Char) : Bool :=
  let n := c.toNat
  (0x9 ≤ n && n ≤ 0xD) || n == 0x20 || n == 0x85 || n == 0xA0 || n == 0x1680 ||
    (0x2000 ≤ n && n ≤ 0x200A) || n == 0x2028 || n == 0x2029 || n == 0x202F ||
    n == 0x205F || n == 0x3000

/-- The text from its first character that is not white. -/
def trimStart (text : List Char) : List Char := text.dropWhile isWhite

/-- The text up to its last character that is not white. -/
def trimEnd (text : List Char) : List Char := (text.reverse.dropWhile isWhite).reverse

/-- The text without its white ends. -/
def trim (text : List Char) : List Char := trimEnd (trimStart text)

/-- Whether nothing or a white character comes next, so that a word ends here. -/
def atWordEnd : List Char → Bool
  | [] => true
  | c :: _ => isWhite c

/-- Trimming the start never lengthens a text. -/
theorem length_trimStart_le (text : List Char) : (trimStart text).length ≤ text.length :=
  (List.dropWhile_sublist isWhite).length_le

/-- What follows trimmed white space does not start with white space. -/
theorem trimStart_head (text : List Char) (c : Char) (rest : List Char)
    (trimmed : trimStart text = c :: rest) : isWhite c = false := by
  have stops := List.head?_dropWhile_not isWhite text
  unfold trimStart at trimmed
  simpa [trimmed] using stops

/-- Every character that core calls white space is white here as well. -/
theorem isWhite_of_isWhitespace (c : Char) (white : c.isWhitespace = true) : isWhite c = true := by
  simp only [Char.isWhitespace, Bool.or_eq_true, decide_eq_true_eq] at white
  rcases white with ((rfl | rfl) | rfl) | rfl <;> decide

end Stencil.Text
