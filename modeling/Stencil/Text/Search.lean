/-!
# Finding one text in another

Whether a part occurs in a text is decided in one pass. Codes are kept of what stands
before a place and of what stands before the place one part further on, and the part
is compared with the text only where these codes fit it. Where the part occurs they
always do, so the answer is exact; the choice of the code decides the time alone.

The first occurrence of a mark splits a text. What the search skips, the mark and
what follows it are the text again.
-/

namespace Stencil.Text

/-- The modulus of codes: a prime number, small enough for products of two codes. -/
def codeModulus : Nat := Nat.pow 2 31 - 1

/-- The base of codes, which is above all characters. -/
def codeBase : Nat := 0x110000

/-- The code of a text with one more character. -/
def extendCode (code : Nat) (c : Char) : Nat := (code * codeBase + c.toNat) % codeModulus

/-- The code of a text that follows one of a known code. -/
def codeFrom (code : Nat) (text : List Char) : Nat := text.foldl extendCode code

/-- What a code is multiplied with when a text follows. -/
def codeFactorFrom (factor : Nat) (text : List Char) : Nat :=
  text.foldl (fun factor _ => factor * codeBase % codeModulus) factor

/-- Whether a part occurs in a text, whose first characters are as many as those of the
part and are followed by `beyond`. The codes are those of all that stands before the
text and before `beyond`. -/
def occursFrom (part : List Char) (factor code before : Nat) (text : List Char) (after : Nat)
    (beyond : List Char) : Bool :=
  (after == (before * factor + code) % codeModulus && part.isPrefixOf text) ||
    match text, beyond with
    | c :: text, d :: beyond =>
      occursFrom part factor code (extendCode before c) text (extendCode after d) beyond
    | _, _ => false

/-- Whether a part occurs in a text. -/
def occursIn (part text : List Char) : Bool :=
  part.length ≤ text.length &&
    occursFrom part (codeFactorFrom 1 part) (codeFrom 0 part) 0 text
      (codeFrom 0 (text.take part.length)) (text.drop part.length)

/-- Codes are below the modulus. -/
theorem extendCode_lt (code : Nat) (c : Char) : extendCode code c < codeModulus :=
  Nat.mod_lt _ (by decide)

/-- A text is coded from its first character on. -/
theorem codeFrom_cons (code : Nat) (c : Char) (text : List Char) :
    codeFrom code (c :: text) = codeFrom (extendCode code c) text := by
  rw [codeFrom, codeFrom, List.foldl_cons]

/-- The last character of a text extends the code of those before it. -/
theorem codeFrom_concat (code : Nat) (text : List Char) (c : Char) :
    codeFrom code (text ++ [c]) = extendCode (codeFrom code text) c := by
  rw [codeFrom, codeFrom, List.foldl_append, List.foldl_cons, List.foldl_nil]

/-- A code that is made up of a factor and a rest stays so when a text follows. -/
theorem codeFrom_eq_of_eq {before code factor rest : Nat} (text : List Char)
    (made : code = (before * factor + rest) % codeModulus) :
    codeFrom code text =
      (before * codeFactorFrom factor text + codeFrom rest text) % codeModulus := by
  induction text generalizing code factor rest with
  | nil => exact made
  | cons c text inductionHypothesis =>
    rw [codeFrom_cons, codeFrom_cons, codeFactorFrom, List.foldl_cons, ← codeFactorFrom]
    apply inductionHypothesis
    have extended : extendCode code c =
        ((before * factor + rest) * codeBase + c.toNat) % codeModulus := by
      rw [made, extendCode, Nat.add_mod, Nat.mod_mul_mod, ← Nat.add_mod]
    have parts : (before * (factor * codeBase % codeModulus) + extendCode rest c) % codeModulus =
        (before * (factor * codeBase) + (rest * codeBase + c.toNat)) % codeModulus := by
      rw [extendCode, Nat.add_mod_mod, Nat.add_mod, Nat.mul_mod_mod, ← Nat.add_mod]
    rw [extended, parts, Nat.add_mul, Nat.mul_assoc, Nat.add_assoc]

/-- When a text follows, its code is added to a multiple of the code before it. -/
theorem codeFrom_eq {before : Nat} (small : before < codeModulus) (text : List Char) :
    codeFrom before text =
      (before * codeFactorFrom 1 text + codeFrom 0 text) % codeModulus :=
  codeFrom_eq_of_eq text (by rw [Nat.mul_one, Nat.add_zero, Nat.mod_eq_of_lt small])

/-- A part stands at the front of a text exactly if the codes fit and the comparison
says so. -/
theorem startsWith_iff {part front : List Char} {before : Nat} (beyond : List Char)
    (small : before < codeModulus) (size : front.length = part.length) :
    (codeFrom before front == (before * codeFactorFrom 1 part + codeFrom 0 part) % codeModulus &&
      part.isPrefixOf (front ++ beyond)) = true ↔ part <+: front ++ beyond := by
  rw [Bool.and_eq_true, List.isPrefixOf_iff_prefix]
  refine ⟨And.right, fun starts => ⟨?_, starts⟩⟩
  have fromFront := List.prefix_of_prefix_length_le starts (List.prefix_append front beyond)
    (Nat.le_of_eq size.symm)
  rw [← fromFront.eq_of_length size.symm, ← codeFrom_eq small part]
  exact beq_self_eq_true _

/-- The search finds a part exactly where it occurs. -/
theorem occursFrom_iff {part front beyond : List Char} {before : Nat}
    (small : before < codeModulus) (size : front.length = part.length) :
    occursFrom part (codeFactorFrom 1 part) (codeFrom 0 part) before (front ++ beyond)
      (codeFrom before front) beyond = true ↔ part <:+: front ++ beyond := by
  induction beyond generalizing front before with
  | nil =>
    rw [occursFrom, Bool.or_eq_true, startsWith_iff [] small size]
    · refine ⟨?_, fun inside => ?_⟩
      · rintro (starts | nothing)
        · exact starts.isInfix
        · exact absurd nothing Bool.false_ne_true
      · rw [List.append_nil] at inside ⊢
        exact .inl (inside.eq_of_length size.symm ▸ List.prefix_refl _)
    · intro c text d beyond texts beyonds
      exact absurd beyonds.symm (List.cons_ne_nil d beyond)
  | cons d beyond inductionHypothesis =>
    obtain ⟨c, next, moved⟩ : ∃ c next, front ++ [d] = c :: next := by
      cases front with
      | nil => exact ⟨d, [], rfl⟩
      | cons c front => exact ⟨c, front ++ [d], rfl⟩
    have text : front ++ d :: beyond = c :: (next ++ beyond) := by
      rw [← List.cons_append, ← moved, List.append_assoc, List.singleton_append]
    have code : extendCode (codeFrom before front) d = codeFrom (extendCode before c) next := by
      rw [← codeFrom_concat, moved, codeFrom_cons]
    have nextSize : next.length = part.length := by
      have lengths := congrArg List.length moved
      simp only [List.length_append, List.length_cons, List.length_nil] at lengths
      omega
    have starts := startsWith_iff (d :: beyond) small size
    rw [text] at starts ⊢
    rw [occursFrom, Bool.or_eq_true, starts, code,
      inductionHypothesis (extendCode_lt before c) nextSize, List.infix_cons_iff]

/-- A part occurs where something may stand before it and after it. -/
theorem occursIn_iff (part text : List Char) : occursIn part text = true ↔ part <:+: text := by
  have search (fits : part.length ≤ text.length) :=
    @occursFrom_iff part (text.take part.length) (text.drop part.length) 0 (by decide)
      (by rw [List.length_take]; omega)
  simp only [List.take_append_drop] at search
  rw [occursIn, Bool.and_eq_true, decide_eq_true_iff]
  exact ⟨fun found => (search found.1).mp found.2,
    fun inside => ⟨inside.length_le, (search inside.length_le).mpr inside⟩⟩

/-- What stands before and after the first occurrence of a mark that is not empty. -/
def splitAt? (mark : List Char) : List Char → Option (List Char × List Char)
  | [] => none
  | c :: rest =>
    match mark.isPrefixOf? (c :: rest) with
    | some after => some ([], after)
    | none => (splitAt? mark rest).map fun (before, after) => (c :: before, after)

/-- What is left after a first part is what completes it to the text. -/
theorem isPrefixOf?_eq_some {part text rest : List Char}
    (found : part.isPrefixOf? text = some rest) : text = part ++ rest := by
  induction part generalizing text with
  | nil => exact Option.some.inj found
  | cons c part inductionHypothesis =>
    cases text with
    | nil => cases found
    | cons d text =>
      change (if c == d then part.isPrefixOf? text else none) = some rest at found
      split at found
      · next same => rw [inductionHypothesis found, eq_of_beq same, List.cons_append]
      · cases found

/-- The parts around a mark, with the mark between them, are the text. -/
theorem splitAt?_eq_some {mark text before after : List Char}
    (found : splitAt? mark text = some (before, after)) : text = before ++ mark ++ after := by
  induction text generalizing before with
  | nil => simp [splitAt?] at found
  | cons c rest inductionHypothesis =>
    simp only [splitAt?] at found
    split at found
    · next read =>
      simp only [Option.some.injEq, Prod.mk.injEq] at found
      obtain ⟨rfl, rfl⟩ := found
      simpa using isPrefixOf?_eq_some read
    · simp only [Option.map_eq_some_iff, Prod.mk.injEq, Prod.exists] at found
      obtain ⟨_, _, read, rfl, rfl⟩ := found
      simp [inductionHypothesis read]

/-- What follows a mark is no longer than the text. -/
theorem length_splitAt?_le {mark text before after : List Char}
    (found : splitAt? mark text = some (before, after)) : after.length ≤ text.length := by
  rw [splitAt?_eq_some found, List.length_append]
  omega

end Stencil.Text
