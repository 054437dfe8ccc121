import Rulebook.Node.Walk

/-!
# Listing a tree

## Main definitions

* `Node.dump`: one line a node, indented by depth
-/

namespace Rulebook

/-- What a line of a listing adds to the variant. -/
def Kind.detail {α : Type} : Kind α → String
  | .consequence c => "(" ++ c.kind.name ++ ": " ++ c.action ++ ")"
  | .rule head _ => "(" ++ head.name ++ ")"
  | .logic op _ _ => "(" ++ op.symbol ++ ")"
  | .comparison op _ _ => "(" ++ op.symbol ++ ")"
  | .arithmetic op _ _ => "(" ++ op.symbol ++ ")"
  | .chain order _ _ => "(" ++ order.name ++ ")"
  | .identifier name | .ruleCall name => "(" ++ name ++ ")"
  | .literal l => "(" ++ l.value.text ++ ")"
  | .extension tag => "(" ++ tag ++ ")"
  | .decision .. | .block => ""

/-- Blanks that indent a line by a number of levels. -/
def indent (levels : Nat) : String :=
  String.ofList (List.replicate (2 * levels) ' ')

/-- The nodes of a tree in preorder, one line each. -/
def Node.dump (n : Node) : String :=
  n.walkAll (fun n depth out =>
    out ++ indent (depth - 1) ++ n.kind.name ++ n.kind.detail ++ "\n") ""

end Rulebook
