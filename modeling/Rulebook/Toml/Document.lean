import Rulebook.Toml.Scalar

/-!
# Reading TOML documents

## Main definitions

* `Toml.key`: a key, with the path in front of it
* `Toml.item`: what stands behind a key
* `Toml.Document`: the tables read so far, and the header that keys belong to
* `Toml.parse?`: the root table of a text
-/

namespace Rulebook

namespace Toml

open Reader

/-- The number of parts of a key, and of arrays and tables within one another, that is too
large. -/
def nestingLimit : Nat := 80

/-! ## Keys -/

section Keys

/-- Characters of keys without quotes. -/
def isKeyChar (c : Char) : Bool :=
  c.isAlphanum || c == '-' || c == '_'

/-- One part of a key. -/
def simpleKey : Reader String := do
  match ← peek? with
  | some '"' => quotedString '"'
  | some '\'' => quotedString '\''
  | _ =>
    let chars ← takeWhile isKeyChar
    if chars.isEmpty then fail else return String.ofList chars

/-- A part of a key with blanks around it. -/
def keyPart : Reader String := do
  blanks
  let part ← simpleKey
  blanks
  return part

/-- A key: the path in front of its last part, and the last part. -/
def key : Reader (List String × String) := do
  let parts ← separated (text ".") keyPart
  if nestingLimit ≤ parts.length then fail
  else
    match parts.getLast? with
    | some last => return (parts.dropLast, last)
    | none => fail

end Keys

/-! ## Items -/

section Items

/-- A key with its item. -/
def pair (item : Reader Item) : Reader (List String × String × Item) := do
  let (path, last) ← key
  text "="
  blanks
  return (path, last, ← item)

/-- An array behind its opening bracket. Line breaks may stand anywhere in it, and a comma behind
its last item. -/
def array (item : Reader Item) : Reader Item := do
  let items ← separated (text ",") (do
    filler
    let i ← item
    filler
    return i)
  -- `[,]` is no array.
  if !items.isEmpty then
    let _ ← accept ","
  filler
  text "]"
  return .array items

/-- A table behind its opening brace. -/
def inlineTable (item : Reader Item) : Reader Item := do
  let pairs ← separated (text ",") (do
    let p ← pair item
    blanks
    return p)
  blanks
  text "\x7d"
  return .table .inline (← ofOption (tableOfPairs pairs))

/-- What stands behind a key. `levels` is how many arrays and tables may still be within one
another. -/
def item : Nat → Reader Item
  | 0 => scalar
  | levels + 1 => do
    if ← accept "[" then array (item levels)
    else if ← accept "\x7b" then inlineTable (item levels)
    else scalar

end Items

/-! ## Documents -/

/-- The root table, and the path of the header that the next keys belong to. -/
structure Document where
  root : Table := []
  header : List String := []

namespace Document

/-- Gives a key of the current table its item. -/
def assign (doc : Document) (path : List String) (key : String) (item : Item) :
    Option Document := do
  let root ← edit false (fun _ t => Toml.assign path key item t) doc.header .header doc.root
  return { doc with root }

/-- Enters a header. -/
def enter (doc : Document) (opening : List String → String → Table → Option Table)
    (path : List String) (key : String) : Option Document := do
  let root ← opening path key doc.root
  return ⟨root, path ++ [key]⟩

end Document

section Documents

/-- A header between brackets. -/
def header (doc : Document) : Reader Document := do
  let nested ← accept "[["
  if !nested then text "["
  let (path, last) ← key
  text (if nested then "]]" else "]")
  lineEnd
  ofOption (doc.enter (if nested then openNext else openTable) path last)

/-- A line with a key and its item. -/
def entry (doc : Document) : Reader Document := do
  let (path, last, i) ← pair (item (nestingLimit - 1))
  lineEnd
  ofOption (doc.assign path last i)

/-- All lines of a document. -/
def lines : Nat → Document → Reader Document
  | 0, _ => fail
  | fuel + 1, doc => do
    blanks
    match ← peek? with
    | none => return doc
    | some '#' | some '\n' | some '\r' =>
      comment
      if (← peek?).isSome then newline
      lines fuel doc
    | some '[' => lines fuel (← header doc)
    | some _ => lines fuel (← entry doc)

/-- The root table of a text. A mark of the byte order in front of it does not count. -/
def parse? (source : String) : Option Table :=
  let chars :=
    match source.toList with
    | '\ufeff' :: rest => rest
    | chars => chars
  -- Each line takes at least one character, and the end is seen in one more step.
  (lines (chars.length + 1) {} chars).map (·.1.root)

end Documents

end Toml

end Rulebook
