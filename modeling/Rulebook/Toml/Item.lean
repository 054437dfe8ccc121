import Rulebook.Dict

/-!
# TOML documents

A document is a table of items. How a table came about decides whether it may be added to later:
each table is defined in one place only.

## Main definitions

* `Toml.Form`: the ways in which a table comes about
* `Toml.Item`: what a key may stand for
* `Toml.edit`: changing the table that a path leads to
* `Toml.assign`, `Toml.openTable`, `Toml.openNext`: the effects of a key, of a header `[key]` and
  of a header `[[key]]`
-/

namespace Rulebook

namespace Toml

/-- The ways in which a table comes about. -/
inductive Form where
  /-- The table has a header of its own. -/
  | header
  /-- The table was passed by the path of a header. -/
  | passed
  /-- The table was passed by a dotted key. -/
  | dotted
  /-- The table is written between braces. -/
  | inline
  deriving DecidableEq

/-- What a key may stand for. Arrays of tables are never empty; the last of their tables is kept
apart, the others come after it in reverse order. -/
inductive Item where
  | string (s : String)
  | integer (n : Int)
  | float (x : Float)
  | bool (b : Bool)
  /-- A date, a time of day, or both. -/
  | moment (text : String)
  | array (items : List Item)
  | table (form : Form) (entries : List (String × Item))
  | tables (last : List (String × Item)) (earlier : List (List (String × Item)))

/-- The items of a table by their keys. -/
abbrev Table := Dict Item

/-- Changes the table that a path leads to. Tables that are missing on the way come into being.
A table between braces is closed, and a dotted key cannot enter a table with a header. -/
def edit (dotted : Bool) (change : Form → Table → Option Table) :
    List String → Form → Table → Option Table
  | [], form, table => change form table
  | key :: path, _, table =>
    match table.find? key with
    | none =>
      let form := if dotted then .dotted else .passed
      (edit dotted change path form []).map fun t => table.insert key (.table form t)
    | some (.table form inner) =>
      if form = .inline ∨ (dotted ∧ form = .header) then none
      else (edit dotted change path form inner).map fun t => table.insert key (.table form t)
    | some (.tables last earlier) =>
      (edit dotted change path .header last).map fun t => table.insert key (.tables t earlier)
    | some _ => none

/-- Gives a key its item. The key must be new, and tables on its path must have come about by
dotted keys. -/
def assign (path : List String) (key : String) (item : Item) (table : Table) : Option Table :=
  edit true (fun form inner =>
    if (form = .dotted) ↔ path = [] then none
    else if (inner.find? key).isSome then none
    else some (inner.insert key item)) path .header table

/-- The effect of a header `[key]`: a table that was at most passed before gets its header. -/
def openTable (path : List String) (key : String) (table : Table) : Option Table :=
  edit false (fun _ inner =>
    match inner.find? key with
    | none => some (inner.insert key (.table .header []))
    | some (.table .passed t) => some (inner.insert key (.table .header t))
    | some _ => none) path .header table

/-- The effect of a header `[[key]]`: an array of tables gets one more table. -/
def openNext (path : List String) (key : String) (table : Table) : Option Table :=
  edit false (fun _ inner =>
    match inner.find? key with
    | none => some (inner.insert key (.tables [] []))
    | some (.tables last earlier) => some (inner.insert key (.tables [] (last :: earlier)))
    | some _ => none) path .header table

/-- The table of a list of keys with their items, as it is written between braces. -/
def tableOfPairs (pairs : List (List String × String × Item)) : Option Table :=
  pairs.foldlM (fun table (path, key, item) => assign path key item table) []

end Toml

end Rulebook
