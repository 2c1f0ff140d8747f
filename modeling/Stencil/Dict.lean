/-!
# Dictionaries in key order

A dictionary is the list of its entries, in increasing order of their keys, no
key twice. Keys are ordered by code point, which for well-formed text is also
the order of their UTF-8 bytes, and this is the order in which a dictionary is
printed and iterated over.

The view of a dictionary is `get?`. The main statement, `get?_insert`, says what
inserting does to that view; it needs no assumption on the order.
-/

namespace Stencil

/-- Entries in increasing order of their keys. -/
abbrev Dict (α : Type) := List (String × α)

namespace Dict

variable {α : Type}

/-- The value at a key. -/
def get? (key : String) : Dict α → Option α
  | [] => none
  | (k, value) :: more => if k = key then some value else get? key more

/-- Whether a key is bound. -/
def contains (key : String) (entries : Dict α) : Bool := (entries.get? key).isSome

/-- Binds a key in its place in the order, replacing an earlier binding. -/
def insert (key : String) (value : α) : Dict α → Dict α
  | [] => [(key, value)]
  | (k, held) :: more =>
    if k = key then (key, value) :: more
    else if key < k then (key, value) :: (k, held) :: more
    else (k, held) :: insert key value more

/-- The dictionary without a key. -/
def erase (key : String) (entries : Dict α) : Dict α :=
  entries.filter fun entry => entry.1 ≠ key

/-- Reads entries in turn, so the last of those with one key wins. -/
def ofList (entries : List (String × α)) : Dict α :=
  entries.foldl (fun held entry => insert entry.1 entry.2 held) []

/-- The keys in increasing order. -/
def keys (entries : Dict α) : List String := entries.map Prod.fst

/-- A lookup after an insertion finds the new value at its key and the old
value everywhere else. -/
theorem get?_insert (key : String) (value : α) (entries : Dict α) (asked : String) :
    (entries.insert key value).get? asked =
      if key = asked then some value else entries.get? asked := by
  induction entries with
  | nil => simp [insert, get?]
  | cons entry more inductionHypothesis =>
    obtain ⟨k, held⟩ := entry
    simp only [insert]
    split
    · next same => subst same; simp only [get?]; split <;> rfl
    · next different =>
      split
      · simp only [get?]
      · simp only [get?, inductionHypothesis]
        split
        · next found => simp [Ne.symm (found ▸ different)]
        · rfl

/-- The inserted key is bound to the inserted value. -/
theorem get?_insert_self (key : String) (value : α) (entries : Dict α) :
    (entries.insert key value).get? key = some value := by
  simp [get?_insert]

/-- Other keys keep their binding. -/
theorem get?_insert_of_ne (key asked : String) (value : α) (entries : Dict α)
    (different : key ≠ asked) : (entries.insert key value).get? asked = entries.get? asked := by
  simp [get?_insert, different]

end Dict

end Stencil
