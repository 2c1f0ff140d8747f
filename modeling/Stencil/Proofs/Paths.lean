import Mathlib
import Stencil.FileTree

/-!
# Where paths lead by their text

The dots in a path can be resolved without looking at any folder: one dot stays where it is, and
two dots take back the step before them. Where there is no step before them they stay in front, but
at the root, around which there is nothing, they have no effect.

A path lies strictly below a folder if, after that, it has the steps of the folder and then more of
them, none of which leads out. The main statement says of which relative paths this is true when
they follow the folder: those that lead out of some of its last folders, in again through the same
ones, and then on.
-/

namespace Stencil

namespace Path

/-- Whether a path starts at the root, and not where it is used. -/
def isAbsolute (path : String) : Bool := path.startsWith "/"

/-- A way after one more step, the last step first. Two dots take the last step back. -/
def advance (absolute : Bool) (way : List String) (step : String) : List String :=
  if step = ".." then
    match way with
    | [] => if absolute then [] else [".."]
    | last :: earlier => if last = ".." then ".." :: way else earlier
  else step :: way

/-- The steps of a path after its dots are resolved by their text alone. -/
def resolved (path : String) : List String :=
  ((steps path).foldl (advance (isAbsolute path)) []).reverse

/-- The path lies strictly below the folder, by their texts. -/
def Below (folder path : String) : Prop :=
  isAbsolute path = isAbsolute folder ∧
    ∃ inner, inner ≠ [] ∧ ".." ∉ inner ∧ resolved path = resolved folder ++ inner

/-- A relative path leads out of some of the last folders on the way to a folder, in again through
the same ones, and then on. At the root more steps can lead out than there are folders. -/
def Descends (folder path : String) : Prop :=
  ∃ out back inner, resolved path = List.replicate out ".." ++ (back ++ inner) ∧
    ".." ∉ back ++ inner ∧ inner ≠ [] ∧ back <:+ resolved folder ∧
      (back.length = out ∨ isAbsolute folder = true ∧ back = resolved folder ∧ back.length ≤ out)

/-! ### The steps of a path -/

open String in
/-- Splitting a text at its slashes, somewhere in the middle: some names were found, the latest
first, and the current one has begun. -/
theorem splitOnAux_slash (before current rest : List Char) (found : List String) :
    splitOnAux (ofList (before ++ current ++ rest)) "/" ⟨utf8Len before⟩
        ⟨utf8Len (before ++ current)⟩ 0 found =
      found.reverse ++ (rest.splitOnPPrepend (· == '/') current.reverse).map ofList := by
  have cut (before current later : List Char) :
      Pos.Raw.extract (ofList (before ++ current ++ later)) ⟨utf8Len before⟩
        ⟨utf8Len (before ++ current)⟩ = ofList current := by
    rw [utf8Len_append]
    exact extract_of_valid before current later
  induction rest generalizing before current found with
  | nil =>
    have ended : Pos.Raw.atEnd (ofList (before ++ current ++ []))
        ⟨utf8Len (before ++ current)⟩ = true := (atEnd_of_valid _ _).mpr rfl
    unfold splitOnAux
    rw [if_pos ended, cut]
    simp only [List.reverse_cons, List.splitOnPPrepend_nil, List.reverse_reverse, List.map_cons,
      List.map_nil]
  | cons c later inductionHypothesis =>
    have more : ¬Pos.Raw.atEnd (ofList (before ++ current ++ c :: later))
        ⟨utf8Len (before ++ current)⟩ = true :=
      fun ended => List.cons_ne_nil c later ((atEnd_of_valid _ _).mp ended)
    have here : Pos.Raw.get (ofList (before ++ current ++ c :: later))
        ⟨utf8Len (before ++ current)⟩ = c := get_of_valid _ _
    have next : Pos.Raw.next (ofList (before ++ current ++ c :: later))
        ⟨utf8Len (before ++ current)⟩ = ⟨utf8Len (before ++ current ++ [c])⟩ := by
      rw [next_of_valid, utf8Len_append _ [c], utf8Len_cons, utf8Len_nil, Nat.zero_add]
    have slash : Pos.Raw.get "/" 0 = '/' := by decide
    unfold splitOnAux
    rw [if_neg more, here, slash]
    by_cases separates : (c == '/') = true
    · have closed : Pos.Raw.atEnd "/" (Pos.Raw.next "/" 0) = true := by decide
      have back : (⟨utf8Len (before ++ current ++ [c])⟩ : Pos.Raw).unoffsetBy
          (Pos.Raw.next "/" 0) = ⟨utf8Len (before ++ current)⟩ := by
        rw [beq_iff_eq.mp separates, utf8Len_append _ ['/']]
        rfl
      have rest := inductionHypothesis (before ++ current ++ [c]) [] (ofList current :: found)
      rw [List.append_nil, List.append_assoc _ [c] later, List.singleton_append] at rest
      simp only [separates, if_true, next, closed, back, cut, rest]
      rw [List.splitOnPPrepend_cons_eq_if, if_pos separates]
      simp only [List.reverse_cons, List.append_assoc, List.singleton_append, List.reverse_nil,
        List.splitOnPPrepend_nil_right, List.reverse_reverse, List.map_cons]
    · have start : (⟨utf8Len (before ++ current)⟩ : Pos.Raw).unoffsetBy 0 =
          ⟨utf8Len (before ++ current)⟩ := rfl
      have rest := inductionHypothesis before (current ++ [c]) found
      rw [← List.append_assoc, List.append_assoc _ [c] later, List.singleton_append] at rest
      simp only [separates, Bool.false_eq_true, if_false, start, next, rest]
      rw [List.splitOnPPrepend_cons_eq_if, if_neg separates, List.reverse_append,
        List.reverse_singleton, List.singleton_append]

/-- The names of a path are what stands between its slashes. -/
theorem names_eq (path : String) : names path = (path.toList.splitOn '/').map String.ofList := by
  have split := splitOnAux_slash [] [] path.toList []
  simp only [List.append_nil, List.nil_append, String.ofList_toList] at split
  exact split

theorem steps_eq (path : String) :
    steps path = ((path.toList.splitOn '/').map String.ofList).filter fun name => !stays name := by
  rw [steps, names_eq]

/-- A path after another one takes the steps of both. -/
theorem steps_append (front path : String) :
    steps (front ++ "/" ++ path) = steps front ++ steps path := by
  have slash : "/".toList = ['/'] := rfl
  simp only [steps_eq, String.toList_append, slash, List.append_assoc, List.singleton_append,
    List.splitOn_append_cons_self, List.map_append, List.filter_append]

theorem steps_empty : steps "" = [] := by
  rw [steps_eq]
  rfl

theorem isAbsolute_iff (path : String) : isAbsolute path = true ↔ ['/'] <+: path.toList := by
  rw [isAbsolute, String.startsWith_string_iff]
  rfl

/-- A relative path that follows a folder takes the steps of both. -/
theorem steps_join {path : String} (relative : isAbsolute path = false) (folder : String) :
    steps (join folder path) = steps folder ++ steps path := by
  have follows : path.startsWith "/" = false := relative
  unfold join
  rw [follows, Bool.false_or]
  split
  · next empty =>
    rw [String.isEmpty_iff.mp empty, steps_empty, List.nil_append]
  · next nonempty =>
    split
    · next closed =>
      obtain ⟨front, rfl⟩ : ∃ front, folder = front ++ "/" := by
        have ends : ['/'] <:+ folder.toList := by
          have := String.Slice.endsWith_string_iff.mp closed
          simpa using this
        obtain ⟨front, whole⟩ := ends
        refine ⟨String.ofList front, ?_⟩
        rw [← String.toList_inj, String.toList_append, String.toList_ofList]
        exact whole.symm
      have bare : steps (front ++ "/") = steps front := by
        rw [← String.append_empty (s := front ++ "/"), steps_append, steps_empty, List.append_nil]
      rw [steps_append, bare]
    · rw [steps_append]

/-- Where a text starts as a path is told by what stands first in it. -/
theorem isAbsolute_append {front : String} (nonempty : front ≠ "") (more : String) :
    isAbsolute (front ++ more) = isAbsolute front := by
  have first : ∃ c rest, front.toList = c :: rest :=
    List.exists_cons_of_ne_nil fun empty => nonempty (String.toList_inj.mp empty)
  obtain ⟨c, rest, text⟩ := first
  rw [Bool.eq_iff_iff, isAbsolute_iff, isAbsolute_iff, String.toList_append, text]
  simp only [List.cons_append, List.cons_prefix_cons]
  simp

/-- A relative path that follows a folder starts where the folder does. -/
theorem isAbsolute_join {path : String} (relative : isAbsolute path = false) (folder : String) :
    isAbsolute (join folder path) = isAbsolute folder := by
  have follows : path.startsWith "/" = false := relative
  unfold join
  rw [follows, Bool.false_or]
  split
  · next empty =>
    rw [String.isEmpty_iff.mp empty, relative]
    rfl
  · next nonempty =>
    have folderNonempty : folder ≠ "" := fun empty => nonempty (String.isEmpty_iff.mpr empty)
    split
    · exact isAbsolute_append folderNonempty path
    · rw [String.append_assoc]
      exact isAbsolute_append folderNonempty _

/-! ### Steps from some way on -/

variable {absolute : Bool} {way names : List String}

theorem advance_of_ne {step : String} (onwards : step ≠ "..") :
    advance absolute way step = step :: way := if_neg onwards

theorem advance_back {last : String} (plain : last ≠ "..") :
    advance absolute (last :: way) ".." = way := by
  rw [advance, if_pos rfl]
  exact if_neg plain

theorem advance_stuck : advance absolute (".." :: way) ".." = ".." :: ".." :: way := by
  rw [advance, if_pos rfl]
  exact if_pos rfl

/-- Names that do not lead out are added to the way. -/
theorem foldl_advance_plain (plain : ".." ∉ names) :
    names.foldl (advance absolute) way = names.reverse ++ way := by
  induction names generalizing way with
  | nil => rfl
  | cons name names inductionHypothesis =>
    obtain ⟨onwards, rest⟩ := List.ne_and_not_mem_of_not_mem_cons plain
    rw [List.foldl_cons, advance_of_ne onwards.symm, inductionHypothesis rest, List.reverse_cons,
      List.append_assoc, List.singleton_append]

/-- As many steps out as there are names at the end of the way take these back. -/
theorem foldl_advance_out (plain : ".." ∉ names) :
    (List.replicate names.length "..").foldl (advance absolute) (names ++ way) = way := by
  induction names with
  | nil => rfl
  | cons name names inductionHypothesis =>
    obtain ⟨onwards, rest⟩ := List.ne_and_not_mem_of_not_mem_cons plain
    rw [List.length_cons, List.replicate_succ, List.foldl_cons, List.cons_append,
      advance_back onwards.symm, inductionHypothesis rest]

/-- From the root no step leads out. -/
theorem foldl_advance_root (count : Nat) :
    (List.replicate count "..").foldl (advance true) [] = [] := by
  induction count with
  | zero => rfl
  | succ count inductionHypothesis => exact inductionHypothesis

/-- Where a step out stands in front, more of them stand in front as well. -/
theorem foldl_advance_stuck (count : Nat) :
    (List.replicate count "..").foldl (advance absolute) (".." :: way) =
      List.replicate (count + 1) ".." ++ way := by
  induction count generalizing way with
  | zero => rfl
  | succ count inductionHypothesis =>
    rw [List.replicate_succ, List.foldl_cons, advance_stuck, inductionHypothesis,
      List.replicate_succ' (n := count + 1), List.append_assoc, List.singleton_append]

/-- Any steps lead where some steps out and then some names lead, from every way on. -/
theorem exists_out_then_in (steps : List String) : ∃ out names, ".." ∉ names ∧
    ∀ absolute way, steps.foldl (advance absolute) way =
      (List.replicate out ".." ++ names).foldl (advance absolute) way := by
  induction steps using List.reverseRecOn with
  | nil => exact ⟨0, [], List.not_mem_nil, fun _ _ => rfl⟩
  | append_singleton steps step inductionHypothesis =>
    obtain ⟨out, names, plain, same⟩ := inductionHypothesis
    by_cases onwards : step = ".."
    · subst onwards
      rcases List.eq_nil_or_concat' names with rfl | ⟨front, last, rfl⟩
      · refine ⟨out + 1, [], plain, fun absolute way => ?_⟩
        rw [List.foldl_concat, same, List.append_nil, List.append_nil, List.replicate_succ',
          List.foldl_concat]
      · -- The step out takes back the last name.
        have lastPlain : last ≠ ".." := fun same => plain (same ▸ List.mem_concat_self)
        refine ⟨out, front, fun member => plain (List.mem_append_left _ member),
          fun absolute way => ?_⟩
        rw [List.foldl_concat, same, ← List.append_assoc, List.foldl_concat,
          advance_of_ne lastPlain, advance_back lastPlain]
    · refine ⟨out, names ++ [step], fun member => ?_, fun absolute way => ?_⟩
      · rcases List.mem_append.mp member with member | member
        · exact plain member
        · exact onwards (List.mem_singleton.mp member).symm
      · rw [List.foldl_concat, same, ← List.append_assoc, List.foldl_concat]

/-- Where steps out lead from a way: each takes back a name, as long as there are names to take
back; then none is left at the root, or steps out stand in front that did not before. -/
theorem out_cases (absolute : Bool) (out : Nat) (way : List String) :
    let ended := (List.replicate out "..").foldl (advance absolute) way
    (∃ back, ".." ∉ back ∧ back.length = out ∧ way = back ++ ended) ∨
      (absolute = true ∧ ended = [] ∧ way.length ≤ out) ∨ way.count ".." < ended.count ".." := by
  induction out generalizing way with
  | zero => exact .inl ⟨[], List.not_mem_nil, rfl, rfl⟩
  | succ out inductionHypothesis =>
    cases way with
    | nil =>
      -- No step is left to be taken back.
      cases absolute with
      | true => exact .inr (.inl ⟨rfl, foldl_advance_root (out + 1), Nat.zero_le _⟩)
      | false =>
        refine .inr (.inr ?_)
        have ended : (List.replicate (out + 1) "..").foldl (advance false) [] =
            List.replicate (out + 1) ".." ++ [] := foldl_advance_stuck out
        rw [ended, List.append_nil, List.count_replicate_self]
        exact Nat.succ_pos out
    | cons last earlier =>
      by_cases plain : last = ".."
      · subst plain
        refine .inr (.inr ?_)
        rw [foldl_advance_stuck, List.count_append, List.count_replicate_self, List.count_cons_self]
        omega
      · have first : (List.replicate (out + 1) "..").foldl (advance absolute) (last :: earlier) =
            (List.replicate out "..").foldl (advance absolute) earlier := by
          rw [List.replicate_succ, List.foldl_cons, advance_back plain]
        rw [first]
        rcases inductionHypothesis earlier with ⟨back, backPlain, length, whole⟩ | root | more
        · refine .inl ⟨last :: back, ?_, congrArg Nat.succ length, congrArg (last :: ·) whole⟩
          exact List.not_mem_cons_of_ne_of_not_mem (Ne.symm plain) backPlain
        · exact .inr (.inl ⟨root.1, root.2.1, Nat.succ_le_succ root.2.2⟩)
        · rw [List.count_cons_of_ne plain]
          exact .inr (.inr more)

/-- From the root on no step out is left. -/
theorem not_mem_foldl_advance_root (steps : List String) (plain : ".." ∉ way) :
    ".." ∉ steps.foldl (advance true) way := by
  induction steps generalizing way with
  | nil => exact plain
  | cons step steps inductionHypothesis =>
    apply inductionHypothesis
    by_cases onwards : step = ".."
    · subst onwards
      cases way with
      | nil => exact plain
      | cons last earlier =>
        obtain ⟨lastPlain, earlierPlain⟩ := List.ne_and_not_mem_of_not_mem_cons plain
        rwa [advance_back lastPlain.symm]
    · rw [advance_of_ne onwards]
      exact List.not_mem_cons_of_ne_of_not_mem (Ne.symm onwards) plain

/-! ### Paths below a folder -/

/-- An absolute path lies strictly below a folder exactly if the folder is absolute and its steps
are the first ones of the path, but not all. -/
theorem below_iff_of_absolute {path : String} (absolute : isAbsolute path = true)
    (folder : String) :
    Below folder path ↔ isAbsolute folder = true ∧ resolved folder <+: resolved path ∧
      resolved folder ≠ resolved path := by
  constructor
  · rintro ⟨start, inner, nonempty, -, whole⟩
    refine ⟨start ▸ absolute, ⟨inner, whole.symm⟩, fun same => nonempty ?_⟩
    rw [← same] at whole
    exact List.append_right_eq_self.mp whole.symm
  · rintro ⟨start, ⟨inner, whole⟩, different⟩
    refine ⟨absolute.trans start.symm, inner, ?_, fun member => ?_, whole.symm⟩
    · rintro rfl
      exact different ((List.append_nil _).symm.trans whole)
    · have left : ".." ∈ resolved path := whole ▸ List.mem_append_right (resolved folder) member
      rw [resolved, absolute, List.mem_reverse] at left
      exact not_mem_foldl_advance_root (steps path) List.not_mem_nil left

/-- What is left of a relative path are steps out and then names, and the path leads where these
lead, from every way on. -/
theorem resolved_of_relative {path : String} (relative : isAbsolute path = false) :
    ∃ out names, ".." ∉ names ∧ resolved path = List.replicate out ".." ++ names ∧
      ∀ absolute way, (steps path).foldl (advance absolute) way =
        (List.replicate out ".." ++ names).foldl (advance absolute) way := by
  obtain ⟨out, names, plain, same⟩ := exists_out_then_in (steps path)
  have front : (List.replicate out "..").foldl (advance false) [] = List.replicate out ".." := by
    cases out with
    | zero => rfl
    | succ count => exact (foldl_advance_stuck count).trans (List.append_nil _)
  refine ⟨out, names, plain, ?_, same⟩
  rw [resolved, relative, same, List.foldl_append, foldl_advance_plain plain, front,
    List.reverse_append, List.reverse_reverse, List.reverse_replicate]

/-- A relative path that follows a folder leads from there where its resolved steps lead. -/
theorem resolved_join {path : String} (relative : isAbsolute path = false) (folder : String) :
    resolved (join folder path) =
      ((resolved path).foldl (advance (isAbsolute folder)) (resolved folder).reverse).reverse := by
  obtain ⟨out, names, -, left, same⟩ := resolved_of_relative relative
  rw [left, ← same, resolved, isAbsolute_join relative, steps_join relative, List.foldl_append,
    resolved, List.reverse_reverse]

/-- A relative path lies strictly below the folder that it follows exactly if it descends. -/
theorem below_join_iff {path : String} (relative : isAbsolute path = false) (folder : String) :
    Below folder (join folder path) ↔ Descends folder path := by
  constructor
  · rintro ⟨-, inner, nonempty, innerPlain, whole⟩
    obtain ⟨out, names, plain, left, -⟩ := resolved_of_relative relative
    have cases := out_cases (isAbsolute folder) out (resolved folder).reverse
    rw [resolved_join relative, left, List.foldl_append, foldl_advance_plain plain,
      List.reverse_append, List.reverse_reverse] at whole
    generalize (List.replicate out "..").foldl (advance (isAbsolute folder))
      (resolved folder).reverse = ended at cases whole
    rcases cases with ⟨back, backPlain, length, through⟩ | ⟨root, reached, length⟩ | more
    · have folderWhole : resolved folder = ended.reverse ++ back.reverse := by
        rw [← List.reverse_append, ← through, List.reverse_reverse]
      rw [folderWhole, List.append_assoc] at whole
      have onwards : names = back.reverse ++ inner := List.append_cancel_left whole
      refine ⟨out, back.reverse, inner, onwards ▸ left, onwards ▸ plain, nonempty, ?_, .inl ?_⟩
      · exact ⟨ended.reverse, folderWhole.symm⟩
      · rw [List.length_reverse, length]
    · have onwards : names = resolved folder ++ inner := by
        rw [← whole, reached, List.reverse_nil, List.nil_append]
      refine ⟨out, resolved folder, inner, onwards ▸ left, onwards ▸ plain, nonempty,
        List.suffix_rfl, .inr ⟨root, rfl, ?_⟩⟩
      rwa [List.length_reverse] at length
    · -- More steps out stand in front than in front of the folder, and names hold none.
      have counted := congrArg (List.count "..") whole
      rw [List.count_append, List.count_append, List.count_reverse,
        List.count_eq_zero_of_not_mem plain, List.count_eq_zero_of_not_mem innerPlain] at counted
      rw [List.count_reverse] at more
      omega
  · rintro ⟨out, back, inner, left, plain, nonempty, ⟨front, through⟩, enough⟩
    have backPlain : ".." ∉ back.reverse := fun member =>
      plain (List.mem_append_left inner (List.mem_reverse.mp member))
    have ended : (List.replicate out "..").foldl (advance (isAbsolute folder))
        (resolved folder).reverse = front.reverse := by
      rcases enough with rfl | ⟨root, rfl, fits⟩
      · rw [← through, List.reverse_append, ← List.length_reverse]
        exact foldl_advance_out backPlain
      · obtain rfl : front = [] := List.append_left_eq_self.mp through
        obtain ⟨beyond, rfl⟩ := Nat.exists_eq_add_of_le fits
        have reached : (List.replicate (resolved folder).length "..").foldl (advance true)
            ((resolved folder).reverse ++ []) = [] := by
          rw [← List.length_reverse]
          exact foldl_advance_out backPlain
        rw [List.append_nil] at reached
        rw [root, List.replicate_add, List.foldl_append, reached, foldl_advance_root,
          List.reverse_nil]
    refine ⟨isAbsolute_join relative folder, inner, nonempty,
      fun member => plain (List.mem_append_right back member), ?_⟩
    rw [resolved_join relative, left, List.foldl_append, foldl_advance_plain plain, ended,
      List.reverse_append, List.reverse_reverse, List.reverse_reverse, ← List.append_assoc, through]

/-- A text without slashes that is no dots is the only step of its path. -/
theorem steps_of_name {name : String} (whole : '/' ∉ name.toList) (leads : stays name = false) :
    steps name = [name] := by
  rw [steps_eq, List.splitOn_eq_singleton whole, List.map_singleton, String.ofList_toList,
    List.filter_singleton, leads]
  rfl

/-- An entry of a folder lies strictly below it. -/
theorem below_join_of_name {name : String} (whole : '/' ∉ name.toList) (leads : stays name = false)
    (inside : name ≠ "..") (folder : String) : Below folder (join folder name) := by
  have relative : isAbsolute name = false := by
    rw [← Bool.not_eq_true, isAbsolute_iff]
    exact fun starts => whole (starts.subset List.mem_cons_self)
  have left : resolved name = [name] := by
    rw [resolved, steps_of_name whole leads, List.foldl_cons, advance_of_ne inside]
    rfl
  refine (below_join_iff relative folder).mpr ⟨0, [], [name], left, ?_, List.cons_ne_nil _ _,
    List.nil_suffix, .inl rfl⟩
  exact fun member => inside (List.mem_singleton.mp member).symm

end Path

end Stencil
