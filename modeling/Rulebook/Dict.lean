/-!
# Dictionaries

An association list whose keys increase strictly, in the order of code points.

## Main definitions

* `Dict.find?`, `Dict.insert`, `Dict.insertNew`, `Dict.ofList`

## Main results

* `Dict.find?_insert`, `Dict.find?_insertNew`: what is found after an insertion
-/

namespace Rulebook

/-- Entries in increasing order of their keys. -/
abbrev Dict (α : Type) := List (String × α)

namespace Dict

variable {α : Type}

/-- The value of a key. -/
def find? : Dict α → String → Option α
  | [], _ => none
  | (k, v) :: rest, key => if k = key then some v else find? rest key

/-- Puts a value at a key, replacing the value it had. -/
def insert : Dict α → String → α → Dict α
  | [], key, value => [(key, value)]
  | (k, v) :: rest, key, value =>
    if k = key then (key, value) :: rest
    else if key < k then (key, value) :: (k, v) :: rest
    else (k, v) :: insert rest key value

/-- Puts a value at a key that has none; a key that has one keeps it. -/
def insertNew (d : Dict α) (key : String) (value : α) : Dict α :=
  match d.find? key with
  | some _ => d
  | none => d.insert key value

/-- The dictionary of a list of entries; of two entries with one key the later counts. -/
def ofList (entries : List (String × α)) : Dict α :=
  entries.foldl (fun d (k, v) => d.insert k v) []

@[simp] theorem find?_nil (key : String) : find? ([] : Dict α) key = none := rfl

theorem find?_insert_self (d : Dict α) (key : String) (value : α) :
    (d.insert key value).find? key = some value := by
  induction d with
  | nil => simp [insert, find?]
  | cons e rest ih =>
    obtain ⟨k, v⟩ := e
    simp only [insert]
    split
    · simp [find?]
    · split
      · simp [find?]
      · next hk _ => simp [find?, hk, ih]

theorem find?_insert_of_ne (d : Dict α) {key other : String} (value : α) (h : key ≠ other) :
    (d.insert key value).find? other = d.find? other := by
  induction d with
  | nil => simp [insert, find?, h]
  | cons e rest ih =>
    obtain ⟨k, v⟩ := e
    simp only [insert]
    split
    · next hk => subst hk; simp [find?, h]
    · split
      · simp [find?, h]
      · simp [find?, ih]

theorem find?_insert (d : Dict α) (key other : String) (value : α) :
    (d.insert key value).find? other = if key = other then some value else d.find? other := by
  split
  · next h => subst h; exact find?_insert_self d key value
  · next h => exact find?_insert_of_ne d value h

theorem find?_insertNew (d : Dict α) (key other : String) (value : α) :
    (d.insertNew key value).find? other =
      if key = other then some ((d.find? key).getD value) else d.find? other := by
  simp only [insertNew]
  split
  · next v h =>
    split
    · next e => subst e; simp [h]
    · rfl
  · next h =>
    rw [find?_insert]
    simp [h]

end Dict

end Rulebook
