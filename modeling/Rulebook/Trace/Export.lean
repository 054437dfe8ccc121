import Rulebook.Node.Dump
import Rulebook.Trace

/-!
# Traces as text

## Main definitions

* `Trace.render`: a listing indented by depth
* `Trace.toJson`, `Trace.toCsv`: the entries as records
* `Trace.renderStack`: the nodes whose evaluation is under way
-/

namespace Rulebook

/-! ## Columns -/

/-- A text with blanks in front of it, up to a width. -/
def padLeft (width : Nat) (s : String) : String :=
  String.ofList (List.replicate (width - s.length) ' ') ++ s

/-- A text with blanks behind it, up to a width. -/
def padRight (width : Nat) (s : String) : String :=
  s ++ String.ofList (List.replicate (width - s.length) ' ')

namespace Trace

/-- The line of an entry in a listing. -/
def renderEntry (e : TraceEntry) : String :=
  ((e.time.map fun ns => "[" ++ padLeft 8 (toString (ns / 1000)) ++ "us] ").getD "") ++
    indent e.depth ++ padRight 15 e.kind.name ++ " " ++ e.message ++
    ((e.value.map fun v => " = " ++ v.text).getD "")

/-- A listing, one line an entry. -/
def render (t : Trace) : String :=
  String.join (t.toList.map fun e => renderEntry e ++ "\n")

/-- The nodes whose evaluation is under way, the innermost first; `mention` says how a node is
referred to. -/
def renderStack (mention : NodeId → String) (t : Trace) : String :=
  String.join (t.stack.zipIdx.map fun (frame, i) =>
    "  #" ++ toString i ++ " " ++ frame.label ++ " (" ++ mention frame.node ++ ")\n")

end Trace

/-! ## Records -/

/-- An entry as it is exported. Times are in microseconds. -/
structure TraceRecord where
  kind : TraceKind
  depth : Nat
  time : Option Nat
  elapsed : Option Nat
  message : String
  value : Option String
  deriving DecidableEq

/-- The whole microseconds of a time in nanoseconds, as far as a word of 64 bits holds them. -/
def micros (ns : Nat) : Nat :=
  min (ns / 1000) (UInt64.size - 1)

namespace Trace

/-- The records of entries; `before` is the time of the entry in front of them. -/
def recordsAfter (before : Option Nat) : List TraceEntry → List TraceRecord
  | [] => []
  | e :: rest =>
    { kind := e.kind
      depth := e.depth
      time := e.time.map micros
      elapsed := e.time.map fun now => micros (now - before.getD now)
      message := e.message
      value := e.value.map Value.text } :: recordsAfter (e.time.or before) rest

/-- The records of a trace. The time elapsed is counted from the entry before. -/
def records (t : Trace) : List TraceRecord :=
  recordsAfter none t.toList

end Trace

/-! ## JSON -/

namespace Json

/-- A character of a JSON string. -/
def escapeChar (c : Char) : List Char :=
  match c with
  | '"' => ['\\', '"']
  | '\\' => ['\\', '\\']
  | '\x08' => ['\\', 'b']
  | '\x0c' => ['\\', 'f']
  | '\n' => ['\\', 'n']
  | '\r' => ['\\', 'r']
  | '\t' => ['\\', 't']
  | c =>
    if c.toNat < 0x20 then
      '\\' :: 'u' :: '0' :: '0' :: Nat.digitChar (c.toNat / 16) :: [Nat.digitChar (c.toNat % 16)]
    else [c]

/-- A text as a JSON string. -/
def string (s : String) : String :=
  String.ofList ('"' :: s.toList.flatMap escapeChar ++ ['"'])

/-- A number, or null. -/
def nat? (n : Option Nat) : String :=
  (n.map fun n => toString n).getD "null"

end Json

namespace TraceRecord

/-- The members of the JSON object of a record. A record without a value has no such member. -/
def jsonMembers (r : TraceRecord) : List String :=
  [ "\"type\": " ++ Json.string r.kind.name,
    "\"depth\": " ++ toString r.depth,
    "\"timestamp\": " ++ Json.nat? r.time,
    "\"elapsed\": " ++ Json.nat? r.elapsed,
    "\"message\": " ++ Json.string r.message ] ++
  (r.value.map fun v => "\"value\": " ++ Json.string v).toList

/-- The JSON object of a record as an item of a list, two blanks a level. -/
def toJson (r : TraceRecord) : String :=
  "  \x7b\n" ++ ",\n".intercalate (r.jsonMembers.map ("    " ++ ·)) ++ "\n  \x7d"

/-- A field of a CSV row, between quotes if it needs them. -/
def csvField (s : String) : String :=
  if s.toList.any fun c => c == ',' || c == '"' || c == '\n' || c == '\r' then
    String.ofList ('"' :: s.toList.flatMap (fun c => if c = '"' then ['"', '"'] else [c]) ++ ['"'])
  else s

/-- The CSV row of a record. -/
def toCsv (r : TraceRecord) : String :=
  ",".intercalate
    [ r.kind.name, toString r.depth, (r.time.map toString).getD "",
      (r.elapsed.map toString).getD "", csvField r.message, (r.value.map csvField).getD "" ]

end TraceRecord

namespace Trace

/-- The records as a JSON list. -/
def toJson (t : Trace) : String :=
  match t.records with
  | [] => "[]"
  | records => "[\n" ++ ",\n".intercalate (records.map TraceRecord.toJson) ++ "\n]"

/-- The records as CSV rows under a heading. -/
def toCsv (t : Trace) : String :=
  "type,depth,timestamp,elapsed,message,value\n" ++
    String.join (t.records.map fun r => r.toCsv ++ "\n")

end Trace

end Rulebook
