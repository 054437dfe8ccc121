import Mathlib.Data.List.Forall2
import Rulebook.Proofs.Trace.Cursor
import Rulebook.Trace.Export

/-!
# The table of a trace

A trace is exported as rows of fields. A field with a separator, a quote or a line end in it stands
between quotes, and its own quotes are doubled. So it can be told of each character whether it
belongs to a field, whatever the messages and values of a trace are.

A reader goes over the text once. What it knows of the field under way is in its state, so what it
makes of a field does not depend on what follows, and fields are put together to rows and rows to
tables.

## Main definitions

* `Csv.Place`, `Csv.readFrom`: the states and the steps of a reader
* `Csv.Denotes`: what a reader makes of a written field
* `Trace.lastTime`: the time from which the next one is counted

## Main results

* `Csv.denotes_csvField`: a field is read as it was before it was written
* `Csv.readFrom_row`, `Csv.readFrom_rows`: so are rows and tables
* `Trace.read_toCsv`: the table of a trace tells its entries
-/

namespace Rulebook

namespace Csv

/-! ## Readers -/

section Reader

/-- Where in a field a reader is. -/
inductive Place where
  | opening
  /-- In a field without quotes. -/
  | bare
  /-- Between quotes. -/
  | quoted
  /-- Behind a quote that ends the field, unless another one follows. -/
  | closed
  deriving DecidableEq

/-- The rows of the rest of a text. `field` are the characters of the field under way and `row` the
fields in front of it, the last one first in both. Commas end fields and newlines end rows. Between
quotes both are characters of the field, and a quote is written twice. What readers do not agree on
is refused: quotes and carriage returns in a field without quotes, characters behind a closing
quote, and a field or row that does not end. -/
def readFrom : Place → List Char → List String → List Char → Option (List (List String))
  | place, _, row, [] => if place = .opening ∧ row = [] then some [] else none
  | .quoted, field, row, c :: rest =>
    if c = '"' then readFrom .closed field row rest else readFrom .quoted (c :: field) row rest
  | place, field, row, c :: rest =>
    if c = ',' then readFrom .opening [] (String.ofList field.reverse :: row) rest
    else if c = '\n' then
      (readFrom .opening [] [] rest).map ((String.ofList field.reverse :: row).reverse :: ·)
    else if c = '"' then
      match place with
      | .opening => readFrom .quoted field row rest
      | .closed => readFrom .quoted (c :: field) row rest
      | _ => none
    else if c = '\r' ∨ place = .closed then none
    else readFrom .bare (c :: field) row rest

/-- The rows of a text. -/
def read (text : String) : Option (List (List String)) :=
  readFrom .opening [] [] text.toList

/-- A character that needs no quotes around its field. -/
def Plain (c : Char) : Prop :=
  c ≠ ',' ∧ c ≠ '"' ∧ c ≠ '\n' ∧ c ≠ '\r'

instance : DecidablePred Plain :=
  fun _ => inferInstanceAs (Decidable (_ ∧ _))

variable {place : Place} {field : List Char} {row : List String} {rest : List Char}

theorem readFrom_comma (h : place ≠ .quoted) : readFrom place field row (',' :: rest) =
    readFrom .opening [] (String.ofList field.reverse :: row) rest := by
  cases place with
  | quoted => exact absurd rfl h
  | _ => rfl

theorem readFrom_newline (h : place ≠ .quoted) : readFrom place field row ('\n' :: rest) =
    (readFrom .opening [] [] rest).map ((String.ofList field.reverse :: row).reverse :: ·) := by
  cases place with
  | quoted => exact absurd rfl h
  | _ => rfl

theorem readFrom_plain {c : Char} (hc : Plain c) (h : place = .opening ∨ place = .bare) :
    readFrom place field row (c :: rest) = readFrom .bare (c :: field) row rest := by
  obtain ⟨hcomma, hquote, hnewline, hreturn⟩ := hc
  rcases h with rfl | rfl <;> simp [readFrom, hcomma, hquote, hnewline, hreturn]

end Reader

/-! ## Fields -/

section Fields

variable {row : List String} {rest : List Char}

/-- A reader that begins a field where a text is written has read the field behind it, and may go
on with a comma or a newline. -/
def Denotes (written field : String) : Prop :=
  ∃ place, place ≠ .quoted ∧ ∀ row rest,
    readFrom .opening [] row (written.toList ++ rest) = readFrom place field.toList.reverse row rest

theorem readFrom_bare {cs : List Char} (hcs : ∀ c ∈ cs, Plain c) (field : List Char) :
    readFrom .bare field row (cs ++ rest) = readFrom .bare (cs.reverse ++ field) row rest := by
  induction cs generalizing field with
  | nil => rfl
  | cons c cs ih =>
    obtain ⟨hc, hcs⟩ := List.forall_mem_cons.1 hcs
    rw [List.cons_append, readFrom_plain hc (.inr rfl), ih hcs, List.reverse_cons,
      List.append_assoc, List.singleton_append]

/-- A text that needs no quotes stands for itself. -/
theorem denotes_self {s : String} (h : ∀ c ∈ s.toList, Plain c) : Denotes s s := by
  cases hs : s.toList with
  | nil => exact ⟨.opening, by decide, fun row rest => by rw [hs]; rfl⟩
  | cons c cs =>
    rw [hs] at h
    obtain ⟨hc, hcs⟩ := List.forall_mem_cons.1 h
    refine ⟨.bare, by decide, fun row rest => ?_⟩
    rw [hs, List.cons_append, readFrom_plain hc (.inl rfl), readFrom_bare hcs, List.reverse_cons]

/-- Between quotes all characters are read, and quotes once for two. -/
theorem readFrom_quoted (cs field : List Char) :
    readFrom .quoted field row
        (cs.flatMap (fun c => if c = '"' then ['"', '"'] else [c]) ++ rest) =
      readFrom .quoted (cs.reverse ++ field) row rest := by
  induction cs generalizing field with
  | nil => rfl
  | cons c cs ih =>
    rw [List.flatMap_cons, List.append_assoc, List.reverse_cons, List.append_assoc,
      List.singleton_append, ← ih]
    by_cases hc : c = '"'
    · rw [if_pos hc, hc]
      rfl
    · rw [if_neg hc, List.singleton_append, readFrom, if_neg hc]

/-- Quoting loses nothing. -/
theorem denotes_csvField (s : String) : Denotes (TraceRecord.csvField s) s := by
  rw [TraceRecord.csvField]
  split
  · refine ⟨.closed, by decide, fun row rest => ?_⟩
    rw [String.toList_ofList, List.cons_append, List.cons_append, List.append_assoc]
    show readFrom .quoted [] row _ = _
    rw [readFrom_quoted, List.append_nil]
    rfl
  · next h =>
    refine denotes_self fun c hc => ?_
    have hplain := List.any_eq_false.1 (Bool.eq_false_iff.2 h) c hc
    simpa [Plain, and_assoc] using hplain

theorem plain_of_isDigit {c : Char} (h : c.isDigit = true) : Plain c := by
  refine ⟨?_, ?_, ?_, ?_⟩ <;> rintro rfl <;> exact absurd h (by decide)

theorem plain_of_isAlpha {c : Char} (h : c.isAlpha = true) : Plain c := by
  refine ⟨?_, ?_, ?_, ?_⟩ <;> rintro rfl <;> exact absurd h (by decide)

/-- Numbers need no quotes. -/
theorem denotes_toString (n : Nat) : Denotes (toString n) (toString n) := by
  refine denotes_self fun c hc => plain_of_isDigit ?_
  rw [Nat.toString_eq_ofList_toDigits, String.toList_ofList] at hc
  exact Nat.isDigit_of_mem_toDigits (by decide) (by decide) hc

/-- The names of kinds need no quotes. -/
theorem denotes_name (kind : TraceKind) : Denotes kind.name kind.name := by
  have hplain : kind.name.toList.all (fun c => decide (Plain c)) = true := by
    cases kind <;> decide
  exact denotes_self fun c hc => of_decide_eq_true (List.all_eq_true.1 hplain c hc)

theorem denotes_empty : Denotes "" "" :=
  denotes_self (List.forall_mem_nil _)

theorem denotes_number? (n : Option Nat) :
    Denotes ((n.map toString).getD "") ((n.map toString).getD "") := by
  cases n with
  | none => exact denotes_empty
  | some n => exact denotes_toString n

end Fields

/-! ## Rows -/

section Rows

/-- The fields of a row are read one after the other. -/
theorem readFrom_row {written fields : List String} (h : List.Forall₂ Denotes written fields)
    (hne : fields ≠ []) (row : List String) (rest : List Char) :
    readFrom .opening [] row ((",".intercalate written).toList ++ '\n' :: rest) =
      (readFrom .opening [] [] rest).map ((row.reverse ++ fields) :: ·) := by
  induction h generalizing row with
  | nil => exact absurd rfl hne
  | @cons w field written fields hfield hfields ih =>
    obtain ⟨place, hplace, hread⟩ := hfield
    cases hfields with
    | nil =>
      rw [String.intercalate_singleton, hread, readFrom_newline hplace]
      simp
    | cons _ _ =>
      -- The comma behind the field ends it, and the other fields are read behind that.
      have hcomma : ",".toList = [','] := rfl
      rw [String.intercalate_cons_cons, String.toList_append, String.toList_append, hcomma,
        List.append_assoc, List.append_assoc, hread, List.singleton_append,
        readFrom_comma hplace, ih (List.cons_ne_nil _ _)]
      simp

/-- The fields that the row of a record tells. -/
def fieldsOf (r : TraceRecord) : List String :=
  [r.kind.name, toString r.depth, (r.time.map toString).getD "", (r.elapsed.map toString).getD "",
    r.message, r.value.getD ""]

/-- Rows are read one after the other. -/
theorem readFrom_rows (records : List TraceRecord) :
    readFrom .opening [] [] (String.join (records.map fun r => r.toCsv ++ "\n")).toList =
      some (records.map fieldsOf) := by
  induction records with
  | nil => rfl
  | cons r records ih =>
    have hvalue : Denotes ((r.value.map TraceRecord.csvField).getD "") (r.value.getD "") := by
      cases r.value with
      | none => exact denotes_empty
      | some v => exact denotes_csvField v
    have hfields : List.Forall₂ Denotes
        [r.kind.name, toString r.depth, (r.time.map toString).getD "",
          (r.elapsed.map toString).getD "", TraceRecord.csvField r.message,
          (r.value.map TraceRecord.csvField).getD ""] (fieldsOf r) :=
      .cons (denotes_name _) (.cons (denotes_toString _) (.cons (denotes_number? _)
        (.cons (denotes_number? _) (.cons (denotes_csvField _) (.cons hvalue .nil)))))
    have hrow := readFrom_row hfields (List.cons_ne_nil _ _) []
      (String.join (records.map fun r => r.toCsv ++ "\n")).toList
    rw [ih] at hrow
    rw [List.map_cons, String.join_cons, String.toList_append, String.toList_append,
      List.append_assoc]
    exact hrow

end Rows

end Csv

/-! ## Tables -/

namespace Trace

section Table

/-- The time of the last of some entries that has one. -/
def lastTime (entries : List TraceEntry) : Option Nat :=
  entries.reverse.findSome? TraceEntry.time

/-- The record of an entry, given the entries in front of it. -/
def recordOf (earlier : List TraceEntry) (e : TraceEntry) : TraceRecord where
  kind := e.kind
  depth := e.depth
  time := e.time.map micros
  elapsed := e.time.map fun now => micros (now - (lastTime earlier).getD now)
  message := e.message
  value := e.value.map Value.text

theorem lastTime_concat (entries : List TraceEntry) (e : TraceEntry) :
    lastTime (entries ++ [e]) = e.time.or (lastTime entries) := by
  rw [lastTime, List.reverse_concat, List.findSome?_cons]
  cases e.time <;> rfl

/-- There is one record for each entry. -/
theorem map_recordsAfter {α : Type} (f : TraceRecord → α) (earlier entries : List TraceEntry) :
    (recordsAfter (lastTime earlier) entries).map f =
      entries.mapIdx fun i e => f (recordOf (earlier ++ entries.take i) e) := by
  induction entries generalizing earlier with
  | nil => rfl
  | cons e entries ih =>
    rw [recordsAfter, ← lastTime_concat, List.map_cons, ih, List.mapIdx_cons, List.take_zero,
      List.append_nil]
    simp only [List.take_succ_cons, List.append_assoc, List.singleton_append]
    rfl

variable {t : Trace}

/-- Entries have times exactly outside of golf mode. -/
def Stamped (t : Trace) : Prop :=
  ∀ e ∈ t.toList, e.time.isNone = t.settings.golf

theorem Stamped.record (h : t.Stamped) (event : TraceEvent) (node : Option NodeId)
    (message : String) (value : Option Value) : (t.record event node message value).Stamped := by
  intro e he
  rw [Trace.record, settings_push]
  rw [Trace.record, toList_push, List.mem_append, List.mem_singleton] at he
  rcases he with he | rfl
  · split at he
    · exact h e (List.mem_of_mem_tail he)
    · exact h e he
  · cases hgolf : t.settings.golf <;> simp

theorem Stamped.perform (h : t.Stamped) (r : Recording) : (t.perform r).Stamped := by
  cases r with
  | exit n result =>
    have hbelow : Stamped { t with depth := t.depth - 1, stack := unwind n.id t.stack } := h
    exact hbelow.record _ _ _ _
  | _ => exact h.record _ _ _ _

theorem Stamped.act {s : Session} (h : s.trace.Stamped) (action : Action) :
    (s.act action).trace.Stamped := by
  cases action with
  | record event =>
    have hclock : Stamped { s.trace with clock := event.time } := h
    exact hclock.perform event.recording
  | next =>
    show s.trace.next.2.Stamped
    rw [Trace.next]
    split <;> exact h
  | rewind => exact h
  | reset => exact List.forall_mem_nil _

theorem settings_act (s : Session) (action : Action) :
    (s.act action).trace.settings = s.trace.settings := by
  cases action with
  | record event => exact settings_perform _ _
  | next =>
    show s.trace.next.2.settings = _
    rw [Trace.next]
    split <;> rfl
  | rewind | reset => rfl

/-- However a trace is used, its entries have times exactly outside of golf mode. -/
theorem Stamped.play {s : Session} (h : s.trace.Stamped) (actions : List Action) :
    (s.play actions).trace.Stamped ∧ (s.play actions).trace.settings = s.trace.settings := by
  induction actions generalizing s with
  | nil => exact ⟨h, rfl⟩
  | cons action actions ih =>
    obtain ⟨hstamped, hsettings⟩ := ih (h.act action)
    exact ⟨hstamped, hsettings.trans (settings_act s action)⟩

/-- The names of the columns of a table. -/
def columns : List String :=
  ["type", "depth", "timestamp", "elapsed", "message", "value"]

theorem denotes_columns : List.Forall₂ Csv.Denotes columns columns := by
  have hletters : ∀ s ∈ columns, s.toList.all Char.isAlpha = true := by decide
  exact List.forall₂_same.2 fun s hs =>
    Csv.denotes_self fun c hc => Csv.plain_of_isAlpha (List.all_eq_true.1 (hletters s hs) c hc)

theorem toList_heading : "type,depth,timestamp,elapsed,message,value\n".toList =
    (",".intercalate columns).toList ++ ['\n'] := by
  decide +kernel

/-- The rows of a table are those of the records, behind the heading. -/
theorem read_records (t : Trace) :
    Csv.read t.toCsv = some (columns :: t.records.map Csv.fieldsOf) := by
  let rows : String := String.join (t.records.map fun r => r.toCsv ++ "\n")
  have hlines : t.toCsv.toList = (",".intercalate columns).toList ++ '\n' :: rows.toList :=
    calc t.toCsv.toList
      _ = "type,depth,timestamp,elapsed,message,value\n".toList ++ rows.toList :=
        String.toList_append
      _ = (",".intercalate columns).toList ++ ['\n'] ++ rows.toList :=
        congrArg (· ++ rows.toList) toList_heading
      _ = (",".intercalate columns).toList ++ '\n' :: rows.toList := List.append_assoc ..
  rw [Csv.read, hlines, Csv.readFrom_row denotes_columns (List.cons_ne_nil _ _),
    Csv.readFrom_rows]
  rfl

/-- **The table of a trace loses nothing.** A reader of comma separated values makes of the table
of any trace the heading and, for each entry that is held, one row of six fields, in order: the
kind, the depth, the time in microseconds, the time since the last entry that has one, the message
and the value, each character for character, and nothing where there is no time or no value.
However a trace is recorded and read, its entries have no times exactly in golf mode. -/
theorem read_toCsv :
    (∀ t : Trace, Csv.read t.toCsv =
      some (["type", "depth", "timestamp", "elapsed", "message", "value"] ::
        t.toList.mapIdx fun i e =>
          [e.kind.name, toString e.depth, ((e.time.map micros).map toString).getD "",
            ((e.time.map fun now =>
              micros (now - (lastTime (t.toList.take i)).getD now)).map toString).getD "",
            e.message, (e.value.map Value.text).getD ""])) ∧
    ∀ settings actions, ∀ e ∈ (Session.play ⟨ofSettings settings, []⟩ actions).trace.toList,
      e.time.isNone = settings.golf := by
  refine ⟨fun t => ?_, fun settings actions e he => ?_⟩
  · have hrecords := map_recordsAfter Csv.fieldsOf [] t.toList
    rw [read_records, records]
    exact congrArg (fun rows => some (_ :: rows)) hrecords
  · have hempty : Stamped (⟨ofSettings settings, []⟩ : Session).trace := List.forall_mem_nil _
    obtain ⟨hstamped, hsettings⟩ := hempty.play actions
    rw [hstamped e he, hsettings]
    rfl

/-- A remark and values with quotes, commas and line ends. -/
def remarks : List Action :=
  [.record ⟨700, .heading "a"⟩, .next, .record ⟨2500, .message none "say \"no\", \r\ntwice"⟩,
    .record ⟨4000, .exit default (.string "\"\n")⟩, .rewind,
    .record ⟨9999, .exit default (.string "")⟩]

/-- A trace of capacity three has let the heading go. -/
theorem read_toCsv_remarks :
    Csv.read (Session.play ⟨ofSettings { limit := some 3 }, []⟩ remarks).trace.toCsv =
        some [["type", "depth", "timestamp", "elapsed", "message", "value"],
          ["message", "0", "2", "0", "say \"no\", \r\ntwice", ""],
          ["exit", "0", "4", "1", "exit Block", "\"\"\n\""],
          ["exit", "0", "9", "5", "exit Block", "\"\""]] ∧
      (Session.play ⟨ofSettings { golf := true }, []⟩ remarks).trace.toList.length = 4 ∧
      ∀ e ∈ (Session.play ⟨ofSettings { golf := true }, []⟩ remarks).trace.toList,
        e.time.isNone = true :=
  ⟨(read_toCsv.1 _).trans (by decide +kernel), by decide +kernel, read_toCsv.2 _ _⟩

end Table

end Trace

end Rulebook
