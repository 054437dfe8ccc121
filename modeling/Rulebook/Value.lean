import Rulebook.Dict
import Rulebook.Error
import Rulebook.Number.Shortest
import Rulebook.Verdict

/-!
# Values

What expressions evaluate to and variables hold.

## Main definitions

* `Outcome`: what came of a consequence
* `Value`: null, booleans, doubles, text, lists, dictionaries, functions and records of the host,
  outcomes, the absent value, and faults
* `Value.isTruthy`: how a value decides a condition
* `Value.same`: equality, in which doubles are compared as numbers
* `Value.text`: how a value is shown
-/

namespace Rulebook

/-- What came of a consequence: the action, whether it succeeded, and what the host returned. -/
structure Outcome (α : Type) where
  action : String
  kind : ConsequenceKind
  success : Bool
  value : α
  message : Option String

/-- A value of the language. Functions, records and dictionaries come from the host alone. -/
inductive Value where
  | null
  | bool (b : Bool)
  | number (x : Float)
  | string (s : String)
  | list (items : List Value)
  | dict (entries : List (String × Value))
  | function (name : String) (arity : Nat)
  | outcome (o : Outcome Value)
  | record (className : String) (fields : List (String × Value))
  | void
  | fault (f : Fault)

namespace Value

instance : Inhabited Value := ⟨null⟩

/-- How a value decides a condition. Zero, the empty text, the empty list and the empty
dictionary are false, and so is the outcome of a consequence that failed. -/
def isTruthy : Value → Bool
  | bool b => b
  | number x => x != 0.0
  | string s => !s.isEmpty
  | list items => !items.isEmpty
  | dict entries => !entries.isEmpty
  | function .. | record .. => true
  | outcome o => o.success
  | null | void | fault _ => false

/-- Whether a value is a fault. -/
def isFault : Value → Bool
  | fault _ => true
  | _ => false

/-- The outcome that a value is, if it is one. -/
def outcome? : Value → Option (Outcome Value)
  | outcome o => some o
  | _ => none

/-- The name of a value's type. -/
def typeName : Value → String
  | null => "null"
  | bool _ => "bool"
  | number _ => "number"
  | string _ => "string"
  | list _ => "list"
  | dict _ => "dict"
  | function .. => "function"
  | outcome _ | record .. => "object"
  | void => "void"
  | fault _ => "error"

/-! ## Equality -/

mutual

/-- Equality of values. Doubles are compared as numbers, so NaN differs from itself and the two
zeros are equal. -/
def same : Value → Value → Bool
  | null, null | void, void => true
  | bool a, bool b => a == b
  | number a, number b => a == b
  | string a, string b => a == b
  | list a, list b => sameItems a b
  | dict a, dict b => sameEntries a b
  | function n a, function m b => n == m && a == b
  | outcome a, outcome b => sameOutcome a b
  | record c a, record d b => c == d && sameEntries a b
  | fault a, fault b => a == b
  | _, _ => false

/-- Equality of lists of values, item by item. -/
def sameItems : List Value → List Value → Bool
  | [], [] => true
  | a :: as, b :: bs => same a b && sameItems as bs
  | _, _ => false

/-- Equality of entries, one by one. -/
def sameEntries : List (String × Value) → List (String × Value) → Bool
  | [], [] => true
  | (k, a) :: as, (l, b) :: bs => k == l && same a b && sameEntries as bs
  | _, _ => false

/-- Equality of outcomes in all their parts. -/
def sameOutcome : Outcome Value → Outcome Value → Bool
  | ⟨action, kind, success, value, message⟩, ⟨action', kind', success', value', message'⟩ =>
    action == action' && kind == kind' && success == success' && same value value' &&
      message == message'

end

/-! ## Text -/

mutual

/-- How a value is shown. Text stands between quotes as it is. -/
def text : Value → String
  | null => "null"
  | bool b => toString b
  | number x => numberText x
  | string s => "\"" ++ s ++ "\""
  | list items => "[" ++ ", ".intercalate (itemTexts items) ++ "]"
  | dict entries => "\x7b" ++ ", ".intercalate (entryTexts entries) ++ "\x7d"
  | function name arity => "<fn " ++ name ++ "/" ++ toString arity ++ ">"
  | outcome o =>
    o.kind.name ++ "(" ++ o.action ++ ") [" ++ (if o.success then "ok" else "failed") ++ "]"
  | record className fields =>
    className ++ " \x7b" ++ ",".intercalate ((entryTexts fields).map (" " ++ ·)) ++ " \x7d"
  | void => "void"
  | fault f => "<" ++ f.text ++ ">"

/-- The texts of the items of a list. -/
def itemTexts : List Value → List String
  | [] => []
  | v :: rest => text v :: itemTexts rest

/-- The texts of entries, key and value. -/
def entryTexts : List (String × Value) → List String
  | [] => []
  | (k, v) :: rest => (k ++ ": " ++ text v) :: entryTexts rest

end

end Value

end Rulebook
