import Rulebook.FileTree
import Rulebook.Settings
import Rulebook.Toml.Document

/-!
# Settings in TOML

```
golf_mode = true

[parser]
max_recursion_depth = 128

[eval]
trace_max_entries = 500
explain = "why"
```

Everything has a default, so the empty document is valid. A section is a table, or an array of its
values in order; a date or time of day is a section that leaves everything at its default. The root
table may hold nothing but what is known; sections may.

## Main definitions

* `Settings.ofTable?`: the settings that a table holds
* `Settings.ofToml`: the settings of a document
* `Settings.ofFile`: the settings of a file
-/

namespace Rulebook

namespace Settings

/-! ## Fields -/

section Fields

variable {α : Type}

/-- A truth value. -/
def boolOf? : Toml.Item → Option Bool
  | .bool b => some b
  | _ => none

/-- A natural number. -/
def natOf? : Toml.Item → Option Nat
  | .integer n => if 0 ≤ n then some n.toNat else none
  | _ => none

/-- A question: `"why"`, or a table whose only key is `why_not`, with an action, or `why`, with
nothing. -/
def questionOf? : Toml.Item → Option Question
  | .string "why" => some .why
  | .table _ [("why", .table _ [])] | .table _ [("why", .array [])] => some .why
  | .table _ [("why_not", .string action)] => some (.whyNot action)
  | _ => none

/-- The value of a key, or the given one if the key is missing. -/
def field (t : Toml.Table) (key : String) (read : Toml.Item → Option α) (default : α) :
    Option α :=
  match t.find? key with
  | some item => read item
  | none => some default

/-- The fields of a section. The values of an array belong to the given names in order. A date or
time of day counts as a table of its own, which holds none of the names. -/
def fieldsOf? (names : List String) : Toml.Item → Option Toml.Table
  | .table _ t => some t
  | .array items => some (Dict.ofList (names.zip items))
  | .moment _ => some []
  | _ => none

end Fields

/-! ## Sections -/

section Sections

/-- The section `lexer`. -/
def scanOf? (item : Toml.Item) : Option ScanSettings := do
  let t ← fieldsOf? ["golf_mode", "skip_whitespace", "skip_comments"] item
  return {
    golf := ← field t "golf_mode" boolOf? false
    skipBlanks := ← field t "skip_whitespace" boolOf? true
    skipComments := ← field t "skip_comments" boolOf? true }

/-- The section `parser`. -/
def parseDepthOf? (item : Toml.Item) : Option Nat := do
  let t ← fieldsOf? ["max_recursion_depth"] item
  field t "max_recursion_depth" natOf? 256

/-- The section `eval`. -/
def evalOf? (item : Toml.Item) : Option EvalSettings := do
  let t ← fieldsOf?
    ["max_recursion_depth", "golf_mode", "trace", "trace_max_entries", "explain"] item
  return {
    maxDepth := ← field t "max_recursion_depth" natOf? 256
    golf := ← field t "golf_mode" boolOf? false
    trace := ← field t "trace" boolOf? true
    traceLimit := ← field t "trace_max_entries" (fun i => (natOf? i).map some) none
    question := ← field t "explain" (fun i => (questionOf? i).map some) none }

/-- The settings that a table holds. -/
def ofTable? (t : Toml.Table) : Option Settings := do
  if !t.all fun (key, _) => ["golf_mode", "lexer", "parser", "eval"].contains key then none
  return {
    golf := ← field t "golf_mode" boolOf? false
    scan := ← field t "lexer" scanOf? {}
    parseDepth := ← field t "parser" parseDepthOf? 256
    eval := ← field t "eval" evalOf? {} }

end Sections

/-! ## Documents -/

/-- The settings of a document. -/
def ofToml (document : String) : Except Error Settings := do
  match (Toml.parse? document).bind ofTable? with
  | some s =>
    s.validate
    return s
  | none => throw .unreadable

/-- The settings of the file that a path leads to. -/
def ofFile (files : FileTree) (path : String) : Except Error Settings :=
  match files.read path with
  | .ok document => ofToml document
  | .error fault => .error (.config ("cannot read " ++ path ++ ": " ++ fault.message))

end Settings

end Rulebook
