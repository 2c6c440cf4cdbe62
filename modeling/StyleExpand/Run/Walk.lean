import StyleExpand.Options
import StyleExpand.Run.Control
import StyleExpand.Sheet.Parser
import StyleExpand.Sheet.Printer

/-!
# Expanding a stylesheet

A walk visits the children of a node in document order. Each visit says how many nodes now stand in
the visited place: none if the node went away, itself, or what a loop or a condition left. The walk
goes on behind them.

* `Run.visit`: one node;
* `Run.walk`: the children of a node, and all below them;
* `Run.process`: a whole stylesheet, with the variables of the options bound at the root.
-/

namespace StyleExpand

/-! ## At-rules -/

/-- What is done with an at-rule. -/
inductive Directive where
  | counting
  | listing
  | condition
  | media
  | keyframes
  | other
  deriving DecidableEq

def Directive.ofName (name : String) : Directive :=
  if name = "for" then .counting
  else if name = "each" then .listing
  else if name = "if" then .condition
  else if name = "media" then .media
  else if name ∈ ["keyframes", "-moz-keyframes", "-o-keyframes", "-webkit-keyframes"] then .keyframes
  else .other

/-- The variable that a property such as `$name` declares. -/
def declaredName? (property : String) : Option String :=
  match property.toList with
  | '$' :: name => if !name.isEmpty && name.all Text.isNameChar then some (String.ofList name) else none
  | _ => none

namespace Run

variable (warns : Bool) (descend : NodeId → Run → Run)

/-! ## Visits -/

/-- Binds the variable that a declaration declares, or resolves the references of its two sides. -/
def visitDeclaration (container node : NodeId) (property value : String) (r : Run) : Nat × Run :=
  match declaredName? property with
  | some name =>
    let (value, r) := r.interpolate warns container node value
    (0, (r.assign container name value).remove node)
  | none =>
    let (property, r) := r.interpolate warns container node property
    let (value, r) := r.interpolate warns container node value
    (1, r.setContent node (.declaration property value))

def visitAtRule (container node : NodeId) (name params : String) (block : Bool) (r : Run) :
    Nat × Run :=
  match Directive.ofName name with
  | .counting => expandFor warns descend container node params r
  | .listing => expandEach warns descend container node params r
  | .condition => expandIf warns descend node params r
  | .media | .keyframes =>
    let (params, r) := r.interpolate warns container node params
    (1, r.setContent node (.atRule name params block))
  | .other => (1, r)

/-- Does what the content of a node asks for, and says how many nodes stand in its place. -/
def visitContent (container node : NodeId) (r : Run) : Nat × Run :=
  match r.sheet.content node with
  | .declaration property value => visitDeclaration warns container node property value r
  | .rule selector =>
    let (selector, r) := r.interpolate warns container node selector
    (1, r.setContent node (.rule selector))
  | .atRule name params block => visitAtRule warns descend container node name params block r
  | .root | .comment _ => (1, r)

/-- Visits a node, and what is below it if it is still there. -/
def visit (container node : NodeId) (r : Run) : Nat × Run :=
  let (count, r) := visitContent warns descend container node r
  if r.sheet.isAttached node && !(r.sheet.children node).isEmpty then (count, descend node r)
  else (count, r)

/-! ## Walks -/

/-- Visits the children of a container from an index on, for at most `steps` visits. -/
def walkFrom (visit : NodeId → Run → Nat × Run) (container : NodeId) : Nat → Nat → Run → Run
  | 0, _, r => r
  | steps + 1, index, r =>
    match (r.sheet.children container)[index]? with
    | none => r
    | some node =>
      let (count, r) := visit node r
      walkFrom visit container steps (index + count) r

/--
Expands what is below a container, `depth` levels down. A visit leaves fewer children to visit than
there were, so there are no more visits than children.
-/
def walk : Nat → NodeId → Run → Run
  | 0, _, r => r
  | depth + 1, container, r =>
    walkFrom (visit warns (walk depth) container) container (r.sheet.children container).length 0 r

/-! ## Whole stylesheets -/

/-- Binds the variables of the options at the root, in order of their names. -/
def bindOptions (options : Options) (r : Run) : Run :=
  options.bindings.toList.foldl (fun r pair => r.assign Sheet.root pair.1 pair.2) r

/-- Expands a whole stylesheet. No branch of it is longer than its store. -/
def process (options : Options) (r : Run) : Run :=
  let r := bindOptions options r
  let r := r.note (.started options.bindings.size)
  walk options.warnUnresolved r.sheet.size Sheet.root r

end Run

/-- The text and the warnings of a source after expansion. -/
def expand (options : Options) (source : String) : Except ParseError (String × List Warning) :=
  (Sheet.parse source).map fun sheet =>
    let run := (Run.start sheet).process options
    (run.sheet.print, run.warnings)

end StyleExpand
