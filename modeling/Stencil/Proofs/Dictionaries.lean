import Mathlib.Data.List.Sort
import Mathlib.Data.String.Basic
import Stencil.Dict

/-!
# Dictionaries are determined by their lookups

A dictionary keeps its entries in the order of their keys, so two dictionaries in which
all lookups find the same are equal, whatever was inserted into them and in which order.
A dictionary that is read from entries finds the last entry of each key.
-/

namespace Stencil.Dict

variable {α β : Type}

/-- The keys increase from each entry to the next. -/
def Increasing (entries : Dict α) : Prop := entries.Pairwise fun entry other => entry.1 < other.1

/-- With no key twice, a lookup finds the entries of a dictionary and nothing else. -/
theorem get?_eq_some_iff_mem {entries : Dict α} {key : String} {value : α}
    (distinct : entries.keys.Nodup) : entries.get? key = some value ↔ (key, value) ∈ entries := by
  induction entries with
  | nil => simp [get?]
  | cons entry more inductionHypothesis =>
    obtain ⟨k, held⟩ := entry
    obtain ⟨absent, distinct⟩ := List.nodup_cons.mp distinct
    by_cases same : k = key
    · subst same
      have missing : (k, value) ∉ more := fun member => absent (List.mem_map.mpr ⟨_, member, rfl⟩)
      simp only [get?, if_true, List.mem_cons, missing, or_false, Option.some.injEq,
        Prod.mk.injEq, true_and, eq_comm]
    · simp only [get?, same, if_false, List.mem_cons, Prod.mk.injEq, Ne.symm same, false_and,
        false_or]
      exact inductionHypothesis distinct

/-- Increasing keys are distinct. -/
theorem Increasing.nodup {entries : Dict α} (increasing : entries.Increasing) :
    entries.keys.Nodup := by
  rw [keys, List.nodup_iff_pairwise_ne, List.pairwise_map]
  exact increasing.imp fun less => ne_of_lt less

/-- Two dictionaries are equal if all lookups in them are. -/
theorem Increasing.ext {entries others : Dict α} (increasing : entries.Increasing)
    (increasingOthers : others.Increasing)
    (same : ∀ key, entries.get? key = others.get? key) : entries = others := by
  have irreflexive : Std.Irrefl fun entry other : String × α => entry.1 < other.1 :=
    ⟨fun entry => lt_irrefl entry.1⟩
  apply List.Pairwise.eq_of_mem_iff increasing increasingOthers
  rintro ⟨key, value⟩
  rw [← get?_eq_some_iff_mem increasing.nodup, ← get?_eq_some_iff_mem increasingOthers.nodup, same]

/-- An inserted key is the only one that is new. -/
theorem mem_insert {key : String} {value : α} {entries : Dict α} {entry : String × α}
    (member : entry ∈ entries.insert key value) : entry.1 = key ∨ entry ∈ entries := by
  induction entries with
  | nil =>
    simp only [insert, List.mem_singleton] at member
    exact .inl (congrArg Prod.fst member)
  | cons held more inductionHypothesis =>
    simp only [insert] at member
    split at member
    · rcases List.mem_cons.mp member with rfl | later
      · exact .inl rfl
      · exact .inr (List.mem_cons_of_mem _ later)
    · split at member
      · rcases List.mem_cons.mp member with rfl | later
        · exact .inl rfl
        · exact .inr later
      · rcases List.mem_cons.mp member with rfl | later
        · exact .inr List.mem_cons_self
        · exact (inductionHypothesis later).imp_right (List.mem_cons_of_mem _)

/-- Inserting keeps the order of the keys. -/
theorem Increasing.insert {entries : Dict α} (increasing : entries.Increasing) (key : String)
    (value : α) : Increasing (entries.insert key value) := by
  induction entries with
  | nil => exact List.pairwise_singleton _ _
  | cons entry more inductionHypothesis =>
    obtain ⟨k, held⟩ := entry
    obtain ⟨above, later⟩ := List.pairwise_cons.mp increasing
    simp only [Dict.insert]
    split
    · next same =>
      subst same
      exact List.pairwise_cons.mpr ⟨above, later⟩
    · next different =>
      split
      · next less =>
        refine List.pairwise_cons.mpr ⟨?_, increasing⟩
        intro other member
        rcases List.mem_cons.mp member with rfl | member
        · exact less
        · exact less.trans (above other member)
      · next notLess =>
        refine List.pairwise_cons.mpr ⟨?_, inductionHypothesis later⟩
        intro other member
        rcases mem_insert member with same | member
        · exact same ▸ lt_of_le_of_ne (not_lt.mp notLess) different
        · exact above other member

/-- The value of the last entry with a key. -/
def last? (key : String) (entries : List (String × α)) : Option α :=
  (entries.reverse.find? fun entry => entry.1 = key).map Prod.snd

theorem last?_nil (key : String) : last? key ([] : List (String × α)) = none := rfl

/-- An entry counts if none after it has its key. -/
theorem last?_cons (key : String) (entry : String × α) (entries : List (String × α)) :
    last? key (entry :: entries) =
      (last? key entries).or (if entry.1 = key then some entry.2 else none) := by
  simp only [last?, List.reverse_cons, List.find?_append, Option.map_or]
  congr 1
  by_cases same : entry.1 = key <;> simp [same]

/-- Entries count before those that they stand after. -/
theorem last?_append (key : String) (entries more : List (String × α)) :
    last? key (entries ++ more) = (last? key more).or (last? key entries) := by
  rw [last?, List.reverse_append, List.find?_append, Option.map_or]
  rfl

/-- The last entry counts if it has the key. -/
theorem last?_concat (key : String) (entries : List (String × α)) (entry : String × α) :
    last? key (entries ++ [entry]) =
      if entry.1 = key then some entry.2 else last? key entries := by
  rw [last?_append, last?_cons, last?_nil, Option.none_or]
  by_cases same : entry.1 = key <;> simp [same]

/-- No value is found exactly if no entry has the key. -/
theorem last?_eq_none_iff {key : String} {entries : List (String × α)} :
    last? key entries = none ↔ ∀ entry ∈ entries, entry.1 ≠ key := by
  simp [last?]

/-- A value that is found belongs to one of the entries. -/
theorem mem_of_last? {key : String} {value : α} {entries : List (String × α)}
    (found : last? key entries = some value) : (key, value) ∈ entries := by
  obtain ⟨⟨k, held⟩, entry, rfl⟩ := Option.map_eq_some_iff.mp found
  have same := List.find?_some entry
  simp only [decide_eq_true_eq] at same
  subst same
  exact List.mem_reverse.mp (List.mem_of_find?_eq_some entry)

/-- Of values that are changed one by one, the last one is changed. -/
theorem last?_map (key : String) (change : α → β) (entries : List (String × α)) :
    last? key (entries.map fun entry => (entry.1, change entry.2)) =
      (last? key entries).map change := by
  induction entries with
  | nil => rfl
  | cons entry entries inductionHypothesis =>
    rw [List.map_cons, last?_cons, last?_cons, inductionHypothesis, Option.map_or]
    congr 1
    by_cases same : entry.1 = key <;> simp [same]

/-- Of the entries that are inserted in turn, a lookup finds the last one. -/
theorem get?_foldl_insert (key : String) (entries : List (String × α)) (held : Dict α) :
    Dict.get? key (entries.foldl (fun held entry => Dict.insert entry.1 entry.2 held) held) =
      (last? key entries).or (held.get? key) := by
  induction entries generalizing held with
  | nil => rfl
  | cons entry entries inductionHypothesis =>
    rw [List.foldl_cons, inductionHypothesis, get?_insert, last?_cons, Option.or_assoc]
    congr 1
    by_cases same : entry.1 = key <;> simp [same]

/-- A dictionary that is read from entries finds the last one of each key. -/
theorem get?_ofList (key : String) (entries : List (String × α)) :
    (ofList entries).get? key = last? key entries := by
  rw [ofList, get?_foldl_insert, get?, Option.or_none]

/-- A dictionary that is read from entries is in order. -/
theorem increasing_ofList (entries : List (String × α)) : (ofList entries).Increasing := by
  have inserted (held : Dict α) (increasing : held.Increasing) :
      Increasing (entries.foldl (fun held entry => Dict.insert entry.1 entry.2 held) held) := by
    induction entries generalizing held with
    | nil => exact increasing
    | cons entry entries inductionHypothesis =>
      exact inductionHypothesis _ (increasing.insert entry.1 entry.2)
  exact inserted [] .nil

/-- Entries of which the last ones agree are read as the same dictionary. -/
theorem ofList_congr {entries others : List (String × α)}
    (same : ∀ key, last? key entries = last? key others) : ofList entries = ofList others := by
  apply (increasing_ofList entries).ext (increasing_ofList others)
  intro key
  rw [get?_ofList, get?_ofList, same]

end Stencil.Dict
