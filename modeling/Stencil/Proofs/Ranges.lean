import Mathlib
import Stencil.Expr.Basic
import Stencil.Proofs.Decimals
import Stencil.Proofs.Magnitudes
import Stencil.Proofs.Words

/-!
# Ranges and indexes up to the ends of the 64-bit integers

The bounds of a range and the index of an element are read as 64-bit integers: a number is rounded
towards zero, and one that is beyond these integers is read as the last of them; a string has to
hold the digits of one of them. What is computed from 64-bit integers could leave that width. It
does not: the length of a range is found in twice the width, the range is counted up to its last
element and never past it, and only a negative index is added to the size of an array.

Each computation has a form here that stops where a result does not fit its width. The main
statement says that these forms never stop and find what evaluation finds, which is what the
integers between the bounds and the places of an array are.
-/

namespace Stencil

/-! ### Widths -/

/-- The integers of a signed width. -/
def Fits (bits : Nat) (n : Int) : Prop := -2 ^ (bits - 1) ≤ n ∧ n < 2 ^ (bits - 1)

instance (bits : Nat) (n : Int) : Decidable (Fits bits n) :=
  inferInstanceAs (Decidable (-2 ^ (bits - 1) ≤ n ∧ n < 2 ^ (bits - 1)))

/-- A result that fits a width; one that overflows is none. -/
def checked (bits : Nat) (n : Int) : Option Int := if Fits bits n then some n else none

theorem checked_of_fits {bits : Nat} {n : Int} (fits : Fits bits n) : checked bits n = some n :=
  if_pos fits

/-- The 64-bit integers are those between the least and the greatest one. -/
theorem fits_iff {n : Int} : Fits 64 n ↔ Number.leastInt ≤ n ∧ n ≤ Number.greatestInt := by
  have least : Number.leastInt = -2 ^ 63 := rfl
  have greatest : Number.greatestInt = 2 ^ 63 - 1 := rfl
  rw [Fits, least, greatest]
  omega

/-- The integers between two of a width are of that width. -/
theorem Fits.between {bits : Nat} {low n high : Int} (fitsLow : Fits bits low)
    (fitsHigh : Fits bits high) (above : low ≤ n) (below : n ≤ high) : Fits bits n :=
  ⟨Int.le_trans fitsLow.1 above, Int.lt_of_le_of_lt below fitsHigh.2⟩

/-- The difference of two 64-bit integers fits twice the width. -/
theorem Fits.sub {a b : Int} (fits : Fits 64 a) (fitsOther : Fits 64 b) : Fits 128 (b - a) := by
  unfold Fits at *
  omega

/-! ### Readings -/

/-- The 64-bit integer that is nearest to an integer. -/
def clamped (n : Int) : Int := max (-2 ^ 63) (min n (2 ^ 63 - 1))

/-- The integer that a value is read as. Other values than numbers and strings are not read. -/
inductive Value.ReadsAs : Value → Int → Prop where
  | int (n : Int) : ReadsAs (.number (.int n)) (clamped n)
  | float (x : Binary64) :
      ReadsAs (.number (.float x)) (clamped (if 0 ≤ x.value then ⌊x.value⌋ else ⌈x.value⌉))
  | string {before digits after : List Char} {n : Int} (spaced : Text.White before)
      (spacedAfter : Text.White after) (denoted : Text.Denotes digits n) (fits : Fits 64 n) :
      ReadsAs (.string (String.ofList (before ++ (digits ++ after)))) n

/-- There is no white space in an integer. -/
theorem Text.Denotes.black {text : List Char} {n : Int} (denoted : Denotes text n) :
    ∀ c ∈ text, isWhite c = false := by
  have digits {digits : List Char} (inside : ∀ c ∈ digits, c.isDigit = true) :
      ∀ c ∈ digits, isWhite c = false := fun c member =>
    Markup.not_isWhite_of_startsName (Markup.startsName_of_isDigit (inside c member))
  cases denoted with
  | unsigned _ inside => exact digits inside
  | plus _ inside => exact List.forall_mem_cons.mpr ⟨by decide, digits inside⟩
  | minus _ inside => exact List.forall_mem_cons.mpr ⟨by decide, digits inside⟩

theorem Text.Denotes.trimmed {text : List Char} {n : Int} (denoted : Denotes text n) :
    Trimmed text where
  head c member := denoted.black c (List.mem_of_head? member)
  getLast c member := denoted.black c (List.mem_of_getLast? member)

theorem Number.saturate_eq_clamped (n : Int) : saturate n = clamped n := rfl

namespace Value

/-- A value has the reading that it is used with as a bound or an index. -/
theorem toIndex?_eq_some_iff {v : Value} {n : Int} : v.toIndex? = some n ↔ v.ReadsAs n := by
  constructor
  · intro read
    cases v with
    | number number =>
      cases read
      cases number with
      | int n => exact .int n
      | float x =>
        rw [Number.toIndex, Number.saturate_eq_clamped, Binary64.truncate_eq]
        exact .float x
    | string s =>
      obtain ⟨found, range⟩ := Option.filter_eq_some_iff.mp read
      have fits : Fits 64 n := fits_iff.mpr (by simpa using range)
      obtain ⟨before, after, spaced, spacedAfter, split⟩ := Text.exists_white_of_trim s.toList
      rw [← String.ofList_toList (s := s), split]
      exact .string spaced spacedAfter (Text.readInt?_eq_some_iff.mp found) fits
    | _ => cases read
  · rintro (n | x | ⟨spaced, spacedAfter, denoted, fits⟩)
    · rfl
    · rw [← Binary64.truncate_eq]
      rfl
    · refine Option.filter_eq_some_iff.mpr ⟨?_, ?_⟩
      · rw [String.toList_ofList, Text.trim_white spaced spacedAfter denoted.trimmed]
        exact Text.readInt?_eq_some_iff.mpr denoted
      · simpa using fits_iff.mp fits

/-- Whatever is read as an index or a bound is a 64-bit integer. -/
theorem fits_of_toIndex? {v : Value} {n : Int} (read : v.toIndex? = some n) : Fits 64 n := by
  rw [fits_iff]
  cases v with
  | number number =>
    cases read
    cases number <;> exact Number.saturate_range _
  | string s =>
    have range := (Option.filter_eq_some_iff.mp read).2
    simpa using range
  | _ => cases read

/-- A 64-bit integer is its own reading. -/
theorem toIndex?_ofInt {n : Int} (fits : Fits 64 n) : (ofInt n).toIndex? = some n := by
  obtain ⟨low, high⟩ := fits_iff.mp fits
  exact congrArg some (Number.saturate_of_range n low high)

/-! ### Ranges -/

/-- The elements are the integers from one bound to the other, in order. -/
structure Spans (items : List Value) (a b : Int) : Prop where
  length : (items.length : Int) = b - a + 1
  item : ∀ k : Nat, k < items.length → items[k]? = some (ofInt (a + k))

/-- Counts up from an integer by a number of steps, in 64 bits. No step is made after the
last element. -/
def countUp : (steps : Nat) → Int → Option (List Value)
  | 0, n => some [ofInt n]
  | steps + 1, n => do
    let next ← checked 64 (n + 1)
    let more ← countUp steps next
    return ofInt n :: more

/-- The elements of a range with two bounds, in machine integers. -/
def rangeChecked (a b : Int) : Option (List Value) := do
  let span ← checked 128 (b - a)
  if longestRange ≤ span ∨ span < 0 then return [] else countUp span.toNat a

/-- Counting does not overflow if the last element fits. -/
theorem countUp_eq {n : Int} {steps : Nat} (fits : Fits 64 n) (fitsLast : Fits 64 (n + steps)) :
    countUp steps n =
      some ((List.range (steps + 1)).map fun offset => ofInt (n + (offset : Nat))) := by
  induction steps generalizing n with
  | zero => simp [countUp]
  | succ steps inductionHypothesis =>
    have fitsNext : Fits 64 (n + 1) := fits.between fitsLast (by omega) (by omega)
    have last : n + 1 + (steps : Int) = n + ((steps + 1 : Nat) : Int) := by omega
    have shifted (offset : Nat) : n + 1 + (offset : Int) = n + ((offset + 1 : Nat) : Int) := by
      omega
    rw [countUp, checked_of_fits fitsNext]
    simp only [Option.bind_eq_bind, Option.bind_some]
    rw [inductionHypothesis fitsNext (last ▸ fitsLast), List.range_succ_eq_map (n := steps + 1)]
    simp only [Option.bind_some, Option.pure_def, List.map_cons, List.map_map, Function.comp_def,
      shifted, Nat.succ_eq_add_one, Int.natCast_zero, Int.add_zero]

variable {first last : Value} {a b : Int}

/-- A range has an element for each integer between its bounds, if it is not too long. -/
theorem spans_range (low : first.toIndex? = some a) (high : last.toIndex? = some b)
    (ordered : a ≤ b) (short : b - a + 1 ≤ 100000) : Spans (range first last) a b := by
  have notLong : ¬longestRange ≤ b - a := by
    unfold longestRange
    omega
  have length : (range first last).length = (b - a + 1).toNat := by
    simp only [range, low, high, notLong, if_false, List.length_map, List.length_range]
  refine ⟨by omega, fun k inside => ?_⟩
  rw [length] at inside
  simp only [range, low, high, notLong, if_false, List.getElem?_map,
    List.getElem?_range inside, Option.map_some]

/-- A range that is too long or runs backwards has no elements. -/
theorem range_eq_nil (low : first.toIndex? = some a) (high : last.toIndex? = some b)
    (outside : ¬(a ≤ b ∧ b - a + 1 ≤ 100000)) : range first last = [] := by
  simp only [range, low, high]
  split
  · rfl
  · next notLong =>
    have none : (b - a + 1).toNat = 0 := by
      unfold longestRange at notLong
      omega
    rw [none]
    rfl

/-- Neither does one with a bound that is no integer. -/
theorem range_eq_nil_of_none (unread : first.toIndex? = none ∨ last.toIndex? = none) :
    range first last = [] := by
  unfold range
  split
  · next low high => rcases unread with missing | missing <;> simp_all
  · rfl

/-- Nothing overflows on the way to the elements of a range. -/
theorem rangeChecked_eq (low : first.toIndex? = some a) (high : last.toIndex? = some b) :
    rangeChecked a b = some (range first last) := by
  have fitsLow := fits_of_toIndex? low
  have fitsHigh := fits_of_toIndex? high
  simp only [rangeChecked, checked_of_fits (fitsLow.sub fitsHigh), Option.bind_eq_bind,
    Option.bind_some]
  split
  · next outside =>
    have none : ¬(a ≤ b ∧ b - a + 1 ≤ 100000) := by
      unfold longestRange at outside
      omega
    rw [range_eq_nil low high none]
    rfl
  · next inside =>
    have notLong : ¬longestRange ≤ b - a := fun long => inside (.inl long)
    have count : (b - a).toNat + 1 = (b - a + 1).toNat := by omega
    have ends : a + ((b - a).toNat : Int) = b := by omega
    have fitsLast : Fits 64 (a + (b - a).toNat) := by rwa [ends]
    rw [countUp_eq fitsLow fitsLast, count]
    simp only [range, low, high, notLong, if_false]

/-! ### Indexes -/

/-- The element of a list at a position, in 64-bit integers. -/
def itemChecked (items : List Value) (index : Int) : Option Value := do
  let position ← if index < 0 then checked 64 (items.length + index) else some index
  return if position < 0 then .null else items[position.toNat]?.getD .null

/-- Nothing overflows on the way to an element: a negative index only takes away from a size. -/
theorem itemChecked_eq {items : List Value} {index : Int} (size : Fits 64 items.length)
    (fits : Fits 64 index) : itemChecked items index = some (itemAt items index) := by
  unfold itemChecked itemAt
  split
  · next negative =>
    have sum : Fits 64 (items.length + index) := fits.between size (by omega) (by omega)
    rw [checked_of_fits sum]
    rfl
  · rfl

/-- An index that is not negative counts from the start. -/
theorem getElem?_itemAt {items : List Value} {i : Int} (nonneg : 0 ≤ i)
    (inside : i < items.length) :
    items[i.toNat]? = some (itemAt items i) := by
  have notNegative : ¬i < 0 := by omega
  have within : i.toNat < items.length := by omega
  simp only [itemAt, notNegative, if_false, List.getElem?_eq_getElem within, Option.getD_some]

/-- A negative index counts from the end. -/
theorem getElem?_itemAt_of_neg {items : List Value} {i : Int} (negative : i < 0)
    (inside : -(items.length : Int) ≤ i) :
    items[(items.length + i).toNat]? = some (itemAt items i) := by
  have nonneg : ¬items.length + i < 0 := by omega
  have within : (items.length + i).toNat < items.length := by omega
  simp only [itemAt, negative, if_true, nonneg, if_false, List.getElem?_eq_getElem within,
    Option.getD_some]

/-- Outside of the places of a list there is no element. -/
theorem itemAt_outside {items : List Value} {index : Int}
    (outside : ¬(-(items.length : Int) ≤ index ∧ index < items.length)) :
    itemAt items index = .null := by
  unfold itemAt
  dsimp only
  by_cases negative : index < 0
  · have before : items.length + index < 0 := by omega
    simp only [negative, if_true, before]
  · have past : items.length ≤ index.toNat := by omega
    simp only [negative, if_false, List.getElem?_eq_none past, Option.getD_none]

/-- The first element is the one at index zero. -/
theorem member_first (items : List Value) : (array items).member "first" = itemAt items 0 := by
  cases items <;> rfl

/-- The last element is the one before the start. -/
theorem member_last (items : List Value) : (array items).member "last" = itemAt items (-1) := by
  have last : (array items).member "last" = items.getLast?.getD .null := rfl
  have place : (items.length + (-1 : Int)).toNat = items.length - 1 := by omega
  by_cases empty : items = []
  · subst empty
    rfl
  · have nonempty := List.length_pos_iff.mpr empty
    have found := @getElem?_itemAt_of_neg items (-1) (by decide) (by omega)
    rw [last, List.getLast?_eq_getElem?, ← place, found, Option.getD_some]

/-- The integers between two bounds are found from the start. -/
theorem Spans.itemAt_start {items : List Value} (spans : Spans items a b) {k : Nat}
    (inside : k < items.length) : itemAt items k = ofInt (a + k) := by
  have found := getElem?_itemAt (Int.natCast_nonneg k) (by omega : (k : Int) < items.length)
  rw [Int.toNat_natCast, spans.item k inside] at found
  exact (Option.some.inj found).symm

/-- They are found from the end as well. -/
theorem Spans.itemAt_end {items : List Value} (spans : Spans items a b) {k : Nat}
    (positive : 0 < k) (inside : k ≤ items.length) : itemAt items (-k) = ofInt (b - k + 1) := by
  have length := spans.length
  have within : (items.length + -(k : Int)).toNat < items.length := by omega
  have place : a + ((items.length + -(k : Int)).toNat : Int) = b - k + 1 := by omega
  have found := @getElem?_itemAt_of_neg items (-k) (by omega) (by omega)
  rw [spans.item _ within, place] at found
  exact (Option.some.inj found).symm

end Value

namespace Expr

open Value

/-- The element of an array variable at an integer, however the integer is written. -/
theorem eval_element {bindings : Bindings} {name : String} {items : List Value} {index : Expr}
    {i : Int} (bound : bindings name = some (.array items))
    (indexed : index.eval bindings = .ofInt i) (fits : Fits 64 i) :
    (Expr.element (.var name) index).eval bindings = itemAt items i := by
  have read := toIndex?_ofInt fits
  simp only [eval, bound, Option.getD_some, indexed]
  unfold Value.element
  split
  · next same => cases same
  · split
    · next same found =>
      cases same
      cases read.symm.trans found
      rfl
    · next other => exact absurd read (other items i rfl)

/-- What ranges and places of arrays denote, with all bounds and indexes that are read as a 64-bit
integer. A range with two integer bounds is the integers from the first one to the last one in
order, if these are at most 100000, and empty otherwise; without one of its bounds it is empty. A
place of an array is counted from the start, or from the end by a negative index, and there is
nothing outside; the first and the last element and the size are those of the places. So a
variable that holds a range gives its integers from either end. Nothing of this overflows. -/
theorem ranges_and_places_exact (bindings : Bindings) :
    (∀ (v : Value) (n : Int), v.toIndex? = some n ↔ v.ReadsAs n) ∧
    (∀ (first last : Expr) (a b : Int), (first.eval bindings).toIndex? = some a →
      (last.eval bindings).toIndex? = some b →
      Fits 64 a ∧ Fits 64 b ∧
      ∃ items, (Expr.range first last).eval bindings = .array items ∧
        rangeChecked a b = some items ∧
        (a ≤ b ∧ b - a + 1 ≤ 100000 → Spans items a b) ∧
        (¬(a ≤ b ∧ b - a + 1 ≤ 100000) → items = []) ∧
        ∀ (later : Bindings) (name : String) (index : Expr) (k : Nat),
          later name = some (.array items) →
          (index.eval later = .ofInt k → k < items.length →
            (Expr.element (.var name) index).eval later = .ofInt (a + k)) ∧
          (index.eval later = .ofInt (-k) → 0 < k → k ≤ items.length →
            (Expr.element (.var name) index).eval later = .ofInt (b - k + 1))) ∧
    (∀ first last : Expr, (first.eval bindings).toIndex? = none ∨
        (last.eval bindings).toIndex? = none →
      (Expr.range first last).eval bindings = .array []) ∧
    ∀ (name : String) (items : List Value), bindings name = some (.array items) →
      (∀ (index : Expr) (i : Int), index.eval bindings = .ofInt i → Fits 64 i →
        ∃ found, (Expr.element (.var name) index).eval bindings = found ∧
          (Fits 64 items.length → itemChecked items i = some found) ∧
          (0 ≤ i ∧ i < items.length → items[i.toNat]? = some found) ∧
          (-(items.length : Int) ≤ i ∧ i < 0 →
            items[(items.length + i).toNat]? = some found) ∧
          (¬(-(items.length : Int) ≤ i ∧ i < items.length) → found = .null)) ∧
      (Expr.member (.var name) "first").eval bindings =
        (Expr.element (.var name) (.literal (.ofInt 0))).eval bindings ∧
      (Expr.member (.var name) "last").eval bindings =
        (Expr.element (.var name) (.literal (.ofInt (-1)))).eval bindings ∧
      (Expr.member (.var name) "size").eval bindings = .ofNat items.length := by
  refine ⟨fun _ _ => toIndex?_eq_some_iff, fun first last a b low high => ?_,
    fun first last unread => ?_, fun name items bound => ?_⟩
  · refine ⟨fits_of_toIndex? low, fits_of_toIndex? high, _, rfl, rangeChecked_eq low high,
      fun ⟨ordered, short⟩ => spans_range low high ordered short, range_eq_nil low high,
      fun later name index k bound => ?_⟩
    by_cases inside : a ≤ b ∧ b - a + 1 ≤ 100000
    · have spans := spans_range low high inside.1 inside.2
      have length := spans.length
      refine ⟨fun indexed within => ?_, fun indexed positive within => ?_⟩
      · have fits : Fits 64 (k : Int) := by
          unfold Fits
          omega
        rw [eval_element bound indexed fits, spans.itemAt_start within]
      · have fits : Fits 64 (-(k : Int)) := by
          unfold Fits
          omega
        rw [eval_element bound indexed fits, spans.itemAt_end positive within]
    · rw [range_eq_nil low high inside]
      refine ⟨fun _ within => absurd within (Nat.not_lt_zero k), fun _ positive within => ?_⟩
      exact absurd (Nat.le_zero.mp within) (Nat.ne_of_gt positive)
  · simp only [eval, range_eq_nil_of_none unread]
  · have named (key : String) : (Expr.member (.var name) key).eval bindings =
        (Value.array items).member key := by
      simp only [eval, bound, Option.getD_some]
    refine ⟨fun index i indexed fits => ⟨itemAt items i, eval_element bound indexed fits, ?_⟩, ?_,
      ?_, named "size"⟩
    · exact ⟨fun size => itemChecked_eq size fits,
        fun inside => getElem?_itemAt inside.1 inside.2,
        fun inside => getElem?_itemAt_of_neg inside.2 inside.1, itemAt_outside⟩
    · rw [named, member_first, eval_element bound rfl (by decide)]
    · rw [named, member_last, eval_element bound rfl (by decide)]

/-- The two greatest integers, from a text and a number, and the range of all integers, which is
too long. The least integer is no place of an array, and is not added up to one. A number with a
fraction is rounded towards zero, and one that is too large is read as the greatest integer. -/
theorem outermost_integers_exact :
    let least := -9223372036854775808
    let greatest := 9223372036854775807
    let bindings : Bindings := fun name =>
      if name = "r" then some (.array [.ofInt (greatest - 1), .ofInt greatest]) else none
    let first : Expr := .literal (.string " +9223372036854775806 ")
    let fraction : Value := .number (.float ⟨true, 6079859496950170, -51, by decide⟩)
    let large : Value := .number (.float ⟨false, 6724873095247260, 944, by decide⟩)
    let place (i : Int) : Expr := .element (.var "r") (.literal (.ofInt i))
    (∃ items, (Expr.range first (.literal (.ofInt greatest))).eval bindings = .array items ∧
        rangeChecked (greatest - 1) greatest = some items ∧ Spans items (greatest - 1) greatest) ∧
      (Expr.range (.literal (.ofInt least)) (.literal (.ofInt greatest))).eval bindings = .array [] ∧
      (place (-2)).eval bindings = .ofInt (greatest - 1) ∧
      (place least).eval bindings = .null ∧
      (fraction.ReadsAs (-2) ∧
        (Expr.range (.literal fraction) (.literal (.ofInt 0))).eval bindings =
          .array [.ofInt (-2), .ofInt (-1), .ofInt 0]) ∧
      (large.ReadsAs greatest ∧
        (Expr.range (.literal (.ofInt greatest)) (.literal large)).eval bindings =
          .array [.ofInt greatest]) := by
  intro least greatest bindings first fraction large place
  obtain ⟨readings, ranges, -, places⟩ := ranges_and_places_exact bindings
  have fractionRead : fraction.toIndex? = some (-2) := by decide +kernel
  have largeRead : large.toIndex? = some greatest := by decide +kernel
  refine ⟨?ends, ?all, ?fromEnd, ?outside, ⟨(readings _ _).mp fractionRead, ?fraction⟩,
    (readings _ _).mp largeRead, ?large⟩
  case ends =>
    obtain ⟨-, -, items, evaluated, counted, spans, -⟩ :=
      ranges first (.literal (.ofInt greatest)) (greatest - 1) greatest (by decide +kernel)
        (by decide +kernel)
    exact ⟨items, evaluated, counted, spans (by decide)⟩
  case all =>
    obtain ⟨-, -, items, evaluated, -, -, empty, -⟩ :=
      ranges (.literal (.ofInt least)) (.literal (.ofInt greatest)) least greatest
        (by decide +kernel) (by decide +kernel)
    rw [evaluated, empty (by decide)]
  case fromEnd =>
    obtain ⟨inside, -⟩ := places "r" _ rfl
    obtain ⟨found, evaluated, -, -, fromEnd, -⟩ :=
      inside (.literal (.ofInt (-2))) (-2) rfl (by decide)
    exact evaluated.trans (Option.some.inj (fromEnd (by decide))).symm
  case outside =>
    obtain ⟨inside, -⟩ := places "r" _ rfl
    obtain ⟨found, evaluated, -, -, -, outside⟩ :=
      inside (.literal (.ofInt least)) least rfl (by decide)
    exact evaluated.trans (outside (by decide))
  case fraction =>
    obtain ⟨-, -, items, evaluated, counted, -⟩ :=
      ranges (.literal fraction) (.literal (.ofInt 0)) (-2) 0 fractionRead (by decide +kernel)
    cases counted
    exact evaluated
  case large =>
    obtain ⟨-, -, items, evaluated, counted, -⟩ :=
      ranges (.literal (.ofInt greatest)) (.literal large) greatest greatest (by decide +kernel)
        largeRead
    cases counted
    exact evaluated

end Expr

end Stencil
