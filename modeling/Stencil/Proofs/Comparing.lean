import Stencil.Condition.Basic
import Stencil.Proofs.Rounding

/-!
# The order of values

The operators of conditions read one comparison of two values, so their answers fit each other:
at most one of less, equal and greater holds, and the weak orders are what their names say. The
same comparison the other way round gives the mirrored answer, with one exception: a text that
denotes the value that is not a number is greater than every number, and every number is greater
than it.

Whole numbers are compared as binary64 numbers. The main statements say for which values the
answer is mirrored, and for which whole numbers it is that of the integers.
-/

namespace Stencil

/-! ### Places on the scale -/

namespace Number

/-- The numbers that occur: whole numbers are 64-bit integers, signed or not. -/
def Fits : Number → Prop
  | .int n => leastInt ≤ n ∧ n < Int.pow 2 64
  | .float _ => True

instance : (a : Number) → Decidable a.Fits
  | .int n => inferInstanceAs (Decidable (leastInt ≤ n ∧ n < Int.pow 2 64))
  | .float _ => inferInstanceAs (Decidable True)

/-- A 64-bit integer takes the place of the binary64 number nearest to it. -/
theorem scaled_int {n : Int} (fits : (int n).Fits) :
    (int n).scaled = .finite (Binary64.roundedInt n * Binary64.unitsOfOne) := by
  have least : leastInt = -9223372036854775808 := by decide
  have limit : Int.pow 2 64 = 18446744073709551616 := by decide
  have bounded : n.natAbs.log2 ≤ 1022 := by
    by_cases zero : n.natAbs = 0
    · rw [zero]
      decide
    · have small : n.natAbs < 2 ^ 64 := by
        simp only [Fits, least, limit] at fits
        omega
      have bits := (Nat.log2_lt zero).mpr small
      omega
  obtain ⟨x, made, value⟩ := Binary64.exists_ofInt?_rounded bounded
  rw [scaled_eq, toExtended, made, ← value]
  rfl

/-- Every number that occurs has a finite place. -/
theorem exists_scaled {a : Number} (fits : a.Fits) : ∃ units, a.scaled = .finite units := by
  cases a with
  | int n => exact ⟨_, scaled_int fits⟩
  | float x => exact ⟨x.units, rfl⟩

end Number

namespace Scaled

/-- A finite value compares with itself as equal. -/
theorem order_self (units : Int) : (finite units).order (.finite units) = .eq := by
  rw [order, close_self, if_pos rfl]

/-- A finite value and any value that is a number compare the other way round as they do, mirrored.
Values on the same place are close, so one of two that are not close is less. -/
theorem order_swap {units : Int} {y : Scaled} (number : y ≠ .nan) :
    y.order (.finite units) = ((finite units).order y).swap := by
  cases y with
  | nan => exact absurd rfl number
  | infinite negative => cases negative <;> rfl
  | finite other =>
    unfold order
    rw [close_comm (.finite other)]
    cases near : (finite units).close (.finite other) with
    | true => rfl
    | false =>
      have apart : units ≠ other := by
        rintro rfl
        rw [close_self] at near
        exact Bool.noConfusion near
      rcases Int.lt_or_gt_of_ne apart with below | above
      · simp [less, below, Int.lt_asymm below]
      · simp [less, above, Int.lt_asymm above]

/-- With the value that is not a number both ways have the same answer. -/
theorem order_nan (units : Int) :
    (finite units).order .nan = .gt ∧ nan.order (.finite units) = .gt := ⟨rfl, rfl⟩

end Scaled

/-! ### Equality of whole values -/

/-- Numbers are the same as themselves. -/
theorem Number.same_self (a : Number) : a.same a = true := by
  cases a <;> simp [Number.same, Binary64.same]

/-- Sameness of numbers does not depend on their order. -/
theorem Number.same_comm (a b : Number) : a.same b = b.same a := by
  cases a <;> cases b <;> simp [Number.same, Binary64.same, eq_comm]

namespace Value

mutual

/-- Every value is the same as itself. -/
theorem same_self : (a : Value) → a.same a = true
  | .null => rfl
  | .bool b => by rw [same, beq_self_eq_true]
  | .number n => by rw [same, n.same_self]
  | .string s => by rw [same, beq_self_eq_true]
  | .array items => by rw [same, sameItems_self items]
  | .object fields => by rw [same, sameFields_self fields]

theorem sameItems_self : (items : List Value) → sameItems items items = true
  | [] => rfl
  | item :: items => by rw [sameItems, same_self item, sameItems_self items, Bool.and_self]

theorem sameFields_self : (fields : List (String × Value)) → sameFields fields fields = true
  | [] => rfl
  | (key, value) :: fields => by
    rw [sameFields, beq_self_eq_true, same_self value, sameFields_self fields, Bool.and_self,
      Bool.and_self]

end

mutual

/-- Sameness does not depend on the order of the two values. -/
theorem same_comm (a b : Value) : a.same b = b.same a := by
  cases a <;> cases b <;> simp only [same]
  case bool.bool => exact BEq.comm
  case number.number m n => exact m.same_comm n
  case string.string => exact BEq.comm
  case array.array xs ys => exact sameItems_comm xs ys
  case object.object xs ys => exact sameFields_comm xs ys

theorem sameItems_comm (xs ys : List Value) : sameItems xs ys = sameItems ys xs := by
  cases xs <;> cases ys <;> simp only [sameItems]
  case cons.cons x xs y ys => rw [same_comm x y, sameItems_comm xs ys]

theorem sameFields_comm (xs ys : List (String × Value)) : sameFields xs ys = sameFields ys xs := by
  cases xs <;> cases ys <;> simp only [sameFields]
  case cons.cons x xs y ys =>
    rw [same_comm x.2 y.2, sameFields_comm xs ys, BEq.comm (a := x.1)]

end

/-! ### Comparison both ways -/

/-- The values that occur: a number among them is one that occurs. -/
def Fits : Value → Prop
  | .number n => n.Fits
  | _ => True

instance (n : Int) : Decidable (ofInt n).Fits := inferInstanceAs (Decidable (Number.int n).Fits)

/-- A number and a text that denotes the value that is not a number. -/
def Unordered : Value → Value → Prop
  | .number _, .string t => scaledText? t = some .nan
  | .string s, .number _ => scaledText? s = some .nan
  | _, _ => False

/-- Every value compares with itself as equal. -/
theorem compare?_self {a : Value} (fits : a.Fits) : a.compare? a = some .eq := by
  cases a with
  | number n =>
    obtain ⟨units, place⟩ := Number.exists_scaled fits
    rw [compare?, Number.order_eq, ← Number.scaled_eq, place, Scaled.order_self]
  | string s => exact congrArg some Std.ReflCmp.compare_self
  | bool b => exact congrArg some Std.ReflCmp.compare_self
  | null => rfl
  | array items => exact if_pos (same_self (.array items))
  | object fields => exact if_pos (same_self (.object fields))

/-- A number and a text compare the other way round as they do, mirrored, unless the text denotes
the value that is not a number. -/
theorem scaledText?_swap {n : Number} {text : String} (fits : n.Fits)
    (ordered : scaledText? text ≠ some .nan) :
    (scaledText? text).map (·.order n.scaled) =
      ((scaledText? text).map n.scaled.order).map Ordering.swap := by
  obtain ⟨units, place⟩ := Number.exists_scaled fits
  rw [place]
  cases read : scaledText? text with
  | none => rfl
  | some y =>
    have number : y ≠ .nan := fun nan => ordered (by rw [read, nan])
    exact congrArg some (Scaled.order_swap number)

/-- Two values that can be ordered compare the other way round as they do, mirrored. -/
theorem compare?_swap {a b : Value} (fits : a.Fits) (fitsToo : b.Fits)
    (ordered : ¬Unordered a b) : b.compare? a = (a.compare? b).map Ordering.swap := by
  have whole (x y : Value) : (if y.same x then some Ordering.eq else none) =
      (if x.same y then some Ordering.eq else none).map Ordering.swap := by
    rw [same_comm y x]
    cases x.same y <;> rfl
  cases a <;> cases b <;> simp only [compare?] <;> try exact whole _ _
  case bool.bool p q => exact congrArg some Std.OrientedCmp.eq_swap
  case string.string s t => exact congrArg some Std.OrientedCmp.eq_swap
  case number.string n t => exact scaledText?_swap fits ordered
  case string.number s n =>
    rw [scaledText?_swap fitsToo ordered, Option.map_map]
    simp only [Function.comp_def, Ordering.swap_swap, Option.map_id']
  case number.number m n =>
    obtain ⟨units, place⟩ := Number.exists_scaled fits
    obtain ⟨other, placeToo⟩ := Number.exists_scaled fitsToo
    rw [Number.order_eq, Number.order_eq, ← Number.scaled_eq, ← Number.scaled_eq, place, placeToo,
      Scaled.order_swap Scaled.noConfusion]
    rfl

/-- Each of two values that cannot be ordered is greater than the other. -/
theorem compare?_unordered {a b : Value} (fits : a.Fits) (fitsToo : b.Fits)
    (unordered : Unordered a b) : a.compare? b = some .gt ∧ b.compare? a = some .gt := by
  cases a <;> cases b <;> try exact unordered.elim
  case number.string n t =>
    obtain ⟨units, place⟩ := Number.exists_scaled fits
    have read : scaledText? t = some .nan := unordered
    simp [compare?, read, place, Scaled.order_nan]
  case string.number s n =>
    obtain ⟨units, place⟩ := Number.exists_scaled fitsToo
    have read : scaledText? s = some .nan := unordered
    simp [compare?, read, place, Scaled.order_nan]

end Value

/-! ### The operators -/

/-- The answers of the operators to two values are those of one comparison. -/
structure Coherent (a b : Value) : Prop where
  less_or_equal : ¬(Comparison.less.holds a b = true ∧ Comparison.equal.holds a b = true)
  less_or_greater : ¬(Comparison.less.holds a b = true ∧ Comparison.greater.holds a b = true)
  equal_or_greater : ¬(Comparison.equal.holds a b = true ∧ Comparison.greater.holds a b = true)
  atMost : Comparison.atMost.holds a b = true ↔
    Comparison.less.holds a b = true ∨ Comparison.equal.holds a b = true
  atLeast : Comparison.atLeast.holds a b = true ↔
    Comparison.greater.holds a b = true ∨ Comparison.equal.holds a b = true

/-- The answers of the operators to two values are mirrored by those the other way round. -/
structure Mirrored (a b : Value) : Prop where
  equal : Comparison.equal.holds a b = Comparison.equal.holds b a
  less : Comparison.less.holds a b = Comparison.greater.holds b a
  atMost : Comparison.atMost.holds a b = Comparison.atLeast.holds b a

/-- All operators read the same comparison. -/
theorem coherent (a b : Value) : Coherent a b := by
  cases read : a.compare? b with
  | none => constructor <;> simp [Comparison.holds, read]
  | some order => cases order <;> constructor <;> simp [Comparison.holds, read]

/-- A comparison that is mirrored mirrors the operators. -/
theorem mirrored_of_swap {a b : Value} (swap : b.compare? a = (a.compare? b).map Ordering.swap) :
    Mirrored a b := by
  cases read : a.compare? b with
  | none => constructor <;> simp [Comparison.holds, read, swap]
  | some order => cases order <;> constructor <;> simp [Comparison.holds, read, swap]

/-- The operators form one order on each pair of values, in which each value is equal to itself.
It is mirrored by the other way round exactly if the two values can be ordered; otherwise each of
them is greater than the other. -/
theorem comparisons_coherent {a b : Value} (fits : a.Fits) (fitsToo : b.Fits) :
    Coherent a b ∧ Comparison.equal.holds a a = true ∧ (Mirrored a b ↔ ¬Value.Unordered a b) ∧
      (Value.Unordered a b →
        Comparison.greater.holds a b = true ∧ Comparison.greater.holds b a = true) := by
  refine ⟨coherent a b, ?_, ⟨?_, ?_⟩, ?_⟩
  · rw [Comparison.holds, Value.compare?_self fits]
    rfl
  · intro mirrored unordered
    obtain ⟨greater, greaterToo⟩ := Value.compare?_unordered fits fitsToo unordered
    have less := mirrored.less
    rw [Comparison.holds, Comparison.holds, greater, greaterToo] at less
    exact Bool.noConfusion less
  · intro ordered
    exact mirrored_of_swap (Value.compare?_swap fits fitsToo ordered)
  · intro unordered
    obtain ⟨greater, greaterToo⟩ := Value.compare?_unordered fits fitsToo unordered
    rw [Comparison.holds, Comparison.holds, greater, greaterToo]
    exact ⟨rfl, rfl⟩

/-- A numeric text and a number are mirrored. -/
theorem numeric_text_coherent :
    (Value.string "1e3").Fits ∧ (Value.ofInt 7).Fits ∧
      Coherent (.string "1e3") (.ofInt 7) ∧ Mirrored (.string "1e3") (.ofInt 7) := by
  have fits : (Value.ofInt 7).Fits := by decide
  have coherence := comparisons_coherent (a := .string "1e3") trivial fits
  have ordered : ¬Value.Unordered (.string "1e3") (.ofInt 7) := by
    simp only [Value.Unordered, Value.ofInt]
    decide +kernel
  exact ⟨trivial, fits, coherence.1, coherence.2.2.1.mpr ordered⟩

/-- The text of the value that is not a number is greater than one, and one is greater than it. -/
theorem nan_not_mirrored : ¬∀ a b : Value, a.Fits → b.Fits →
    Coherent a b ∧ Comparison.equal.holds a a = true ∧ Mirrored a b := by
  intro coherent
  have fits : (Value.ofInt 1).Fits := by decide
  have mirrored := (coherent (.ofInt 1) (.string "nan") fits trivial).2.2
  have greater : Comparison.greater.holds (.string "nan") (.ofInt 1) = true := by decide +kernel
  have notLess : Comparison.less.holds (.ofInt 1) (.string "nan") = false := by decide +kernel
  rw [← mirrored.less, notLess] at greater
  exact Bool.noConfusion greater

/-! ### Whole numbers -/

/-- The answer that an operator has for integers. -/
def Comparison.ofInts (op : Comparison) (a b : Int) : Bool :=
  match op with
  | .equal => a = b
  | .unequal => a ≠ b
  | .less => a < b
  | .atMost => a ≤ b
  | .greater => a > b
  | .atLeast => a ≥ b
  | .contains => false

/-- Two integers that are different and become the same binary64 number. -/
def Merged (a b : Int) : Prop := a ≠ b ∧ Binary64.roundedInt a = Binary64.roundedInt b

/-- Integers up to 2^53 are not merged. -/
theorem not_merged {a b : Int} (small : a.natAbs ≤ 2 ^ 53) (smallToo : b.natAbs ≤ 2 ^ 53) :
    ¬Merged a b := by
  rintro ⟨different, same⟩
  rw [Binary64.roundedInt_of_le small, Binary64.roundedInt_of_le smallToo] at same
  exact different same

/-- The first integer that is no binary64 number is merged with the one before it. -/
theorem merged_first : Merged 9007199254740992 9007199254740993 :=
  ⟨by decide, by decide +kernel⟩

/-- Whole numbers compare as the integers nearest to them do. -/
theorem compare?_ofInt {a b : Int} (fits : (Number.int a).Fits) (fitsToo : (Number.int b).Fits) :
    (Value.ofInt a).compare? (.ofInt b) =
      some (compare (Binary64.roundedInt a) (Binary64.roundedInt b)) := by
  rw [Value.ofInt, Value.ofInt, Value.compare?, Number.order_eq, ← Number.scaled_eq,
    ← Number.scaled_eq, Number.scaled_int fits, Number.scaled_int fitsToo, Scaled.order_ofInt]

/-- An operator answers as for integers where two values compare as these. -/
theorem holds_of_compare? {a b : Value} {m n : Int} {op : Comparison}
    (read : a.compare? b = some (compare m n)) (notContains : op ≠ .contains) :
    op.holds a b = op.ofInts m n := by
  cases op with
  | contains => exact absurd rfl notContains
  | _ =>
    simp only [Comparison.holds, Comparison.ofInts, read]
    rcases Int.lt_trichotomy m n with below | rfl | above
    · rw [Int.compare_eq_lt.mpr below]
      simp [bne]
      omega
    · rw [Int.compare_eq_eq.mpr rfl]
      simp
    · rw [Int.compare_eq_gt.mpr above]
      simp [bne]
      omega

/-- Rounding keeps the answers of all operators exactly if it does not merge the two integers. It
never turns their order round, so only integers that become one number are answered otherwise. -/
theorem ofInts_rounded_iff (a b : Int) :
    (∀ op, op ≠ Comparison.contains →
      op.ofInts (Binary64.roundedInt a) (Binary64.roundedInt b) = op.ofInts a b) ↔
      ¬Merged a b := by
  constructor
  · rintro answers ⟨different, same⟩
    have equal := answers .equal Comparison.noConfusion
    simp only [Comparison.ofInts, same, decide_true] at equal
    exact different (of_decide_eq_true equal.symm)
  · intro notMerged op _
    have separate : Binary64.roundedInt a = Binary64.roundedInt b → a = b := fun same =>
      Decidable.byContradiction fun different => notMerged ⟨different, same⟩
    rcases Int.lt_trichotomy a b with below | rfl | above
    · have mono := Binary64.roundedInt_mono (Int.le_of_lt below)
      cases op <;> simp [Comparison.ofInts] <;> omega
    · cases op <;> simp [Comparison.ofInts]
    · have mono := Binary64.roundedInt_mono (Int.le_of_lt above)
      cases op <;> simp [Comparison.ofInts] <;> omega

/-- An array of whole numbers holds one exactly if one of them becomes the same number. -/
theorem contains_ofInts {xs : List Int} {a : Int} (fits : (Number.int a).Fits)
    (itemsFit : ∀ x ∈ xs, (Number.int x).Fits) :
    Value.contains (.array (xs.map .ofInt)) (.ofInt a) = true ↔
      ∃ x ∈ xs, Binary64.roundedInt x = Binary64.roundedInt a := by
  rw [Value.contains_array, List.any_map, List.any_eq_true]
  constructor
  · rintro ⟨x, member, equal⟩
    refine ⟨x, member, ?_⟩
    rw [Function.comp_apply, Value.equal, compare?_ofInt (itemsFit x member) fits,
      decide_eq_true_iff] at equal
    exact Int.compare_eq_eq.mp (Option.some.inj equal)
  · rintro ⟨x, member, same⟩
    refine ⟨x, member, ?_⟩
    rw [Function.comp_apply, Value.equal, compare?_ofInt (itemsFit x member) fits,
      decide_eq_true_iff, Int.compare_eq_eq.mpr same]

/-- A comparison of two 64-bit integers has the answer of the numbers nearest to them, which is
the answer of the integers exactly if they are not merged. An array of such integers holds one
exactly if one of its elements becomes the same number, so it holds another one exactly if that is
merged with an element. -/
theorem whole_numbers_rounded (bindings : Bindings) (left right : Expr) {a b : Int}
    (fits : (Number.int a).Fits) (fitsToo : (Number.int b).Fits)
    (leftValue : left.eval bindings = .ofInt a) (rightValue : right.eval bindings = .ofInt b) :
    (∀ op, op ≠ Comparison.contains →
      (Condition.compare left op right).eval bindings =
        op.ofInts (Binary64.roundedInt a) (Binary64.roundedInt b)) ∧
    ((∀ op, op ≠ Comparison.contains →
      (Condition.compare left op right).eval bindings = op.ofInts a b) ↔ ¬Merged a b) ∧
    ∀ (list : Expr) (xs : List Int), (∀ x ∈ xs, (Number.int x).Fits) →
      list.eval bindings = .array (xs.map .ofInt) →
      ((Condition.compare list .contains left).eval bindings = true ↔
        a ∈ xs ∨ ∃ x ∈ xs, Merged x a) := by
  have answers (op : Comparison) (notContains : op ≠ .contains) :
      (Condition.compare left op right).eval bindings =
        op.ofInts (Binary64.roundedInt a) (Binary64.roundedInt b) := by
    rw [Condition.eval, leftValue, rightValue]
    exact holds_of_compare? (compare?_ofInt fits fitsToo) notContains
  refine ⟨answers, ?_, ?_⟩
  · rw [← ofInts_rounded_iff]
    constructor
    · intro exactly op notContains
      rw [← answers op notContains, exactly op notContains]
    · intro rounded op notContains
      rw [answers op notContains, rounded op notContains]
  · intro list xs itemsFit listValue
    have held : (Condition.compare list .contains left).eval bindings =
        Value.contains (.array (xs.map .ofInt)) (.ofInt a) := by
      rw [Condition.eval, leftValue, listValue, Comparison.holds]
    rw [held, contains_ofInts fits itemsFit]
    constructor
    · rintro ⟨x, member, same⟩
      by_cases equal : x = a
      · exact .inl (equal ▸ member)
      · exact .inr ⟨x, member, equal, same⟩
    · rintro (member | ⟨x, member, _, same⟩)
      · exact ⟨a, member, rfl⟩
      · exact ⟨x, member, same⟩

/-- Two neighbours from 2^53 on are equal, and an array of one of them holds the other. -/
theorem neighbours_rounded :
    (Condition.compare (.var "id") .equal (.literal (.ofInt 9007199254740993))).eval
      (fun _ => some (.ofInt 9007199254740992)) =
        Comparison.equal.ofInts (Binary64.roundedInt 9007199254740992)
          (Binary64.roundedInt 9007199254740993) ∧
    (Condition.compare (.literal (.array [.ofInt 1, .ofInt 9007199254740993])) .contains
      (.var "id")).eval (fun _ => some (.ofInt 9007199254740992)) = true := by
  have itemsFit : ∀ x ∈ [1, 9007199254740993], (Number.int x).Fits := by decide
  obtain ⟨rounded, -, held⟩ := whole_numbers_rounded
    (fun _ => some (.ofInt 9007199254740992)) (.var "id") (.literal (.ofInt 9007199254740993))
    (show (Number.int 9007199254740992).Fits by decide) (itemsFit _ (by decide)) rfl rfl
  refine ⟨rounded .equal Comparison.noConfusion, ?_⟩
  exact (held _ _ itemsFit rfl).mpr
    (.inr ⟨9007199254740993, by decide, merged_first.1.symm, merged_first.2.symm⟩)

/-- The operators do not have the answers of the integers for all 64-bit integers. -/
theorem neighbours_not_exact : ¬∀ (bindings : Bindings) (left right : Expr) (a b : Int),
    (Number.int a).Fits → (Number.int b).Fits →
    left.eval bindings = .ofInt a → right.eval bindings = .ofInt b →
    ∀ op, op ≠ Comparison.contains →
      (Condition.compare left op right).eval bindings = op.ofInts a b := by
  intro exactly
  have different := exactly (fun _ => none) (.literal (.ofInt 9007199254740992))
    (.literal (.ofInt 9007199254740993)) _ _ (by decide) (by decide) rfl rfl .equal
    Comparison.noConfusion
  have equal : (Condition.compare (.literal (.ofInt 9007199254740992)) .equal
      (.literal (.ofInt 9007199254740993))).eval (fun _ => none) = true := by
    decide +kernel
  rw [equal] at different
  exact absurd different (by decide)

end Stencil
