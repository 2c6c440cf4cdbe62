import StyleExpand.Sheet.Basic

/-!
# Writing a stylesheet

The canonical text of a stylesheet: a statement a line, two spaces for each block around it, and
an empty block as a pair of braces.
-/

namespace StyleExpand

namespace Printer

def indent (depth : Nat) : List Char := List.replicate (2 * depth) ' '

/-- A block after what opens it, given its written body. -/
def block (depth : Nat) (isEmpty : Bool) (body : List Char) : List Char :=
  if isEmpty then " \x7b\x7d\n".toList
  else " \x7b\n".toList ++ body ++ indent depth ++ "\x7d\n".toList

/-- An at-rule up to its block or semicolon. -/
def atRuleHead (name params : String) : List Char :=
  '@' :: name.toList ++ if params.isEmpty then [] else ' ' :: params.toList

mutual

/-- The text of a tree inside `depth` blocks. Only a rule, an at-rule and a root show what is below. -/
def write (depth : Nat) : Tree Entry → List Char
  | .node ⟨content, _⟩ trees =>
    match content with
    | .root => writeAll depth trees
    | .rule selector =>
      indent depth ++ selector.toList ++ block depth trees.isEmpty (writeAll (depth + 1) trees)
    | .atRule name params true =>
      indent depth ++ atRuleHead name params ++
        block depth trees.isEmpty (writeAll (depth + 1) trees)
    | .atRule name params false => indent depth ++ atRuleHead name params ++ ";\n".toList
    | .declaration property value =>
      indent depth ++ property.toList ++ ": ".toList ++ value.toList ++ ";\n".toList
    | .comment text => indent depth ++ "/*".toList ++ text.toList ++ "*/\n".toList

def writeAll (depth : Nat) : List (Tree Entry) → List Char
  | [] => []
  | t :: ts => write depth t ++ writeAll depth ts

end

end Printer

namespace Sheet

/-- The text of a node inside `depth` blocks. -/
def printNode (s : Sheet) (n : NodeId) (depth : Nat) : String :=
  String.ofList (Printer.write depth (s.tree n))

/-- The text of a stylesheet. -/
def print (s : Sheet) : String := String.ofList (Printer.writeAll 0 s.forest)

end Sheet

end StyleExpand
