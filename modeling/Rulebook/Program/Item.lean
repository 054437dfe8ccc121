import Rulebook.Program.Expr

/-!
# Parsing rules and statements

When a production fails, its error is noted and tokens are passed over up to a place where a new
rule or statement may begin. So a malformed rule hides none of the rules after it.

## Main definitions

* `Parse.synchronize`: passing over tokens after an error
* `Parse.items`: a row of rules and statements
* `Parse.item`: a rule or a statement
-/

namespace Rulebook

namespace Parse

variable {τ : Type} [TokenSource τ] (settings : ParseSettings)

/-! ## Recovery -/

section Recovery

/-- Passes over tokens up to a place where a rule or statement may begin: behind a semicolon or an
`end`, behind a closing brace, or in front of it where it closes the rule being read, and in front
of `rule`, `if` and `when`. -/
def synchronize (insideRule : Bool) : Nat → ParseFrom τ Unit
  | 0 => return
  | fuel + 1 => do
    match (← current).kind with
    | .eof | .kwRule | .kwIf | .kwWhen => return
    | .semicolon | .kwEnd =>
      let _ ← advance
    | .rbrace =>
      if !insideRule then
        let _ ← advance
    | _ =>
      let _ ← advance
      synchronize insideRule fuel

/-- Notes an error and passes over tokens. A production that failed at its first token, at offset
`mark`, passes over that token too, unless it is a closing brace. -/
def recover (e : Error) (mark : Nat) (insideRule : Bool) : ParseFrom τ Unit := do
  report e
  let t ← current
  -- A token that begins nothing would otherwise fail again in the same place.
  if t.span.start == mark && t.kind != .eof && t.kind != .rbrace then
    let _ ← advance
  synchronize insideRule (← get).remaining

end Recovery

/-! ## Items -/

section Items

/-- A row of items, up to the end of the source or, in a rule, to its closing brace. Semicolons
between them do not count. `fuel` bounds the number of items, semicolons and errors. -/
def items (item : ParseFrom τ Node) (insideRule : Bool) : Nat → List Node → ParseFrom τ (List Node)
  | 0, done => return done.reverse
  | fuel + 1, done => do
    let t ← current
    if t.kind == .eof || (insideRule && t.kind == .rbrace) then return done.reverse
    if ← accept .semicolon then items item insideRule fuel done
    else
      match ← attempt item with
      | .ok n => items item insideRule fuel (n :: done)
      | .error e =>
        recover e t.span.start insideRule
        items item insideRule fuel done

/-- A statement: an expression, or a decision `condition then consequence … end` that begins with
its condition. -/
def statement (operand : OperandParser τ) : ParseFrom τ Node := do
  let start ← current
  let n ← operand 0 .statement
  if ← accept .kwThen then
    let decision ← decisionTail settings operand n start
    checkHeight decision.depth
    return decision
  else
    toConsequence settings n

/-- `rule name { … }`, given how the items in it are parsed. -/
def rule (item : ParseFrom τ Node) : ParseFrom τ Node := do
  let start ← advance
  let name ← expectName "rule name"
  let brace ← expect .lbrace "'\x7b' after rule name"
  let statements ← inRule (do items item true (← get).remaining [])
  let close ← expect .rbrace "'\x7d' after rule body"
  let body ← make (Node.block statements) (brace.span.merge close.span) start.line
  let n ← make (Node.rule name body) (start.span.merge close.span) start.line
  checkHeight n.depth
  return n

/-- A rule or a statement. `levels` bounds the productions that may still be nested. -/
def item : Nat → ParseFrom τ Node
  | 0 => statement settings (expr settings 0)
  | levels + 1 => do
    if ← isAt .kwRule then nested settings (rule (item levels))
    else statement settings (expr settings (levels + 1))

/-- All items of a source, as the statements of a block. -/
def root : ParseFrom τ Node := do
  let start ← current
  let statements ← items (item settings settings.maxDepth) false (← get).remaining []
  make (Node.block statements) (start.span.merge (← get).previous.span) 1

end Items

end Parse

end Rulebook
