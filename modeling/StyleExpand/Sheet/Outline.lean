import StyleExpand.Sheet.Basic

/-!
# The outline of a stylesheet

A listing of all nodes for inspection, one a line with kind, position and text, and a count of the
nodes of each kind.
-/

namespace StyleExpand

namespace Outline

/-- The text that stands for a content. -/
def summary : Content → List Char
  | .root => []
  | .rule selector => selector.toList
  | .atRule name params _ => '@' :: name.toList ++ ' ' :: params.toList
  | .declaration property value => property.toList ++ ": ".toList ++ value.toList
  | .comment text => text.toList

/-- A text of more than fifty characters is cut to forty-seven and three dots. -/
def shorten (cs : List Char) : List Char :=
  if 50 < cs.length then cs.take 47 ++ "...".toList else cs

/-- Line ends and tabs are written as escapes. -/
def escape (cs : List Char) : List Char :=
  cs.flatMap fun c =>
    if c = '\n' then ['\\', 'n']
    else if c = '\t' then ['\\', 't']
    else if c = '\r' then ['\\', 'r']
    else [c]

def line (depth : Nat) (entry : Entry) : List Char :=
  let place := match entry.position with
    | some p => p.text
    | none => "-"
  List.replicate (2 * depth) ' ' ++ entry.content.label.toList ++ '[' :: place.toList ++
    "] '".toList ++ escape (shorten (summary entry.content)) ++ "'\n".toList

mutual

def lines (depth : Nat) : Tree Entry → List Char
  | .node entry trees => line depth entry ++ linesAll (depth + 1) trees

def linesAll (depth : Nat) : List (Tree Entry) → List Char
  | [] => []
  | t :: ts => lines depth t ++ linesAll depth ts

end

/-- The names of all kinds in alphabetical order. -/
def labels : List String := ["atrule", "comment", "decl", "root", "rule"]

/-- How many nodes of each kind a tree has; a kind without nodes is left out. -/
def counts (t : Tree Entry) : List (String × Nat) :=
  let found := t.preorder.map fun entry => entry.content.label
  (labels.map fun label => (label, found.count label)).filter fun pair => pair.2 != 0

end Outline

namespace Sheet

/-- The listing of a node and all below it. -/
def outlineNode (s : Sheet) (n : NodeId) (depth : Nat) : String :=
  String.ofList (Outline.lines depth (s.tree n))

/-- The listing of a whole stylesheet, followed by the counts. -/
def outline (s : Sheet) : String :=
  let statistics := (Outline.counts (s.tree root)).map fun pair =>
    pair.1 ++ ": " ++ toString pair.2 ++ "\n"
  "=== Stylesheet Tree ===\n" ++ s.outlineNode root 0 ++ "\n=== Tree Statistics ===\n" ++
    String.join statistics

end Sheet

end StyleExpand
