/-!
# Windows over the end of a sequence

A window holds the last items of a growing sequence, up to a capacity.

## Main definitions

* `Window.toList`: the items held, the oldest one first
* `Window.push`: adds an item, and drops the oldest one when the window is full
* `Window.get?`: the item at a position, counted from the oldest

## Main results

* `Window.length_toList`, `Window.toList_push`, `Window.getElem?_toList`: size, push and look-up
  in terms of the items held
-/

namespace Rulebook

/-- The last items of a sequence. The first `dropped` items of the array are no longer held; they
are cleared away from time to time. -/
structure Window (α : Type) where
  items : Array α := #[]
  dropped : Nat := 0
  dropped_le : dropped ≤ items.size := by exact Nat.zero_le _

namespace Window

variable {α : Type}

/-- The items held, the oldest one first. -/
def toList (w : Window α) : List α :=
  w.items.toList.drop w.dropped

/-- The number of items held. -/
def size (w : Window α) : Nat :=
  w.items.size - w.dropped

/-- The item at a position, counted from the oldest one held. -/
def get? (w : Window α) (i : Nat) : Option α :=
  w.items[w.dropped + i]?

/-- Drops the oldest item, if there is one. Once as many items were dropped as the window can
hold, they are cleared away. -/
def dropOldest (capacity : Nat) (w : Window α) : Window α :=
  match w with
  | ⟨items, dropped, h⟩ =>
    if h' : dropped < items.size then
      if capacity ≤ dropped then ⟨items.extract (dropped + 1), 0, Nat.zero_le _⟩
      else ⟨items, dropped + 1, h'⟩
    else ⟨items, dropped, h⟩

/-- Adds an item behind the others. -/
def append (w : Window α) (a : α) : Window α :=
  { w with
    items := w.items.push a
    dropped_le := by have := w.dropped_le; simp; omega }

/-- Adds an item, dropping the oldest one first if the window is full. -/
def push (capacity : Nat) (w : Window α) (a : α) : Window α :=
  if capacity ≤ w.size then (w.dropOldest capacity).append a else w.append a

@[simp] theorem toList_empty : (({} : Window α)).toList = [] := rfl

theorem length_toList (w : Window α) : w.toList.length = w.size := by
  simp [toList, size]

theorem getElem?_toList (w : Window α) (i : Nat) : w.toList[i]? = w.get? i := by
  simp [toList, get?]

theorem toList_dropOldest (capacity : Nat) (w : Window α) :
    (w.dropOldest capacity).toList = w.toList.tail := by
  simp only [dropOldest, toList]
  split
  · split <;> simp [List.tail_drop, List.take_of_length_le]
  · next h =>
    have : w.items.toList.length ≤ w.dropped := by simp; omega
    simp [List.drop_eq_nil_of_le this]

theorem toList_append (w : Window α) (a : α) : (w.append a).toList = w.toList ++ [a] := by
  have := w.dropped_le
  simp [append, toList, List.drop_append_of_le_length this]

/-- What is held after a push. -/
theorem toList_push (capacity : Nat) (w : Window α) (a : α) :
    (w.push capacity a).toList =
      (if capacity ≤ w.size then w.toList.tail else w.toList) ++ [a] := by
  simp only [push]
  split
  · rw [toList_append, toList_dropOldest]
  · rw [toList_append]

end Window

end Rulebook
