import StyleExpand.Run.Basic
import StyleExpand.Run.Range
import StyleExpand.Value.Operand

/-!
# Loops and conditions

The rules `@for`, `@each` and `@if` leave nodes in front of them and go away. What they do below
themselves is the caller's `descend`, which expands all children of a node.

* `Run.iterate`: one copy of a loop's body for each row of bindings;
* `Run.expandFor`, `Run.expandEach`: the two loops;
* `Run.expandIf`: one of two branches.
-/

namespace StyleExpand

/-- The name that a token binds: all but its first character. -/
def bindingName (token : List Char) : String := String.ofList ((Text.trim token).drop 1)

namespace Run

variable (warns : Bool) (descend : NodeId → Run → Run)

/-! ## Loops -/

/-- Expands a copy of a loop with the bindings so far, and puts what is left of it before the loop. -/
def splice (container node : NodeId) (r : Run) : Nat × Run :=
  let (copy, sheet) := r.sheet.clone node (some container)
  let r := { r with sheet := sheet, scopes := r.scopes.install copy (r.scopes.snapshot node) }
  let r := descend copy r
  let (count, r) := r.insertBefore node (r.sheet.children copy)
  (count, r.discard copy)

/-- Binds names at a node, one after the other. -/
def bindAll (node : NodeId) (bindings : List (String × Value)) (r : Run) : Run :=
  bindings.foldl (fun r binding => r.bind node binding.1 binding.2) r

/-- One round of a loop for each row of bindings; counts the nodes that are left before the loop. -/
def iterate (container node : NodeId) : List (List (String × Value)) → Run → Nat × Run
  | [], r => (0, r)
  | bindings :: rows, r =>
    let (count, r) := splice descend container node (bindAll node bindings r)
    let (more, r) := iterate container node rows r
    (count + more, r)

/-- The number of a token at a place, with its references resolved at the loop. -/
def bound (node : NodeId) (tokens : List (List Char)) (place : Nat) (r : Run) : Double × Run :=
  match tokens[place]? with
  | none => (.nan, r)
  | some token =>
    let (text, r) := r.interpolate warns node node (String.ofList token)
    (boundOf text.toList, r)

/-- `@for $name from FIRST to LAST by STEP`, whose words between the numbers may be any. -/
def expandFor (container node : NodeId) (params : String) (r : Run) : Nat × Run :=
  let tokens := splitSpace params.toList
  match tokens with
  | [] => (0, (r.note .loopWithoutParameters).remove node)
  | token :: _ =>
    let name := bindingName token
    let r := if tokens.length < 5 then r.note (.malformedLoop params) else r
    let (first, r) := bound warns node tokens 2 r
    let (last, r) := bound warns node tokens 4 r
    let (step, r) := bound warns node tokens 6 r
    let range := Range.of first last step
    let visits := range.visits
    let rows := visits.values.map fun x => [(name, Value.scalar x.text)]
    let (count, r) := iterate descend container node rows r
    let r := match visits.stalledAt with
      | some x => r.note (.stalled range.step x)
      | none => r
    let r := r.note (.loopExpanded name visits.values.length)
    (count, (r.remove node).discard node)

/-- The text before the word `in`, and the list after it. -/
def eachParts (params : String) : List Char × List Char :=
  (Text.cutOnce " in ".toList params.toList).getD (params.toList, [])

/-- `@each $name $index in LIST`, where the name of the index may be left out. -/
def expandEach (container node : NodeId) (params : String) (r : Run) : Nat × Run :=
  let (head, list) := eachParts params
  match (Text.words head).map bindingName with
  | [] => (0, (r.note .eachWithoutName).remove node)
  | name :: others =>
    let index := others.head?.filter (!·.isEmpty)
    let (text, r) := r.interpolate warns node node (String.ofList list)
    let elements := (Value.ofText text).elements
    let rows := elements.zipIdx.map fun (element, i) =>
      (name, element) :: (index.map fun name => (name, Value.scalar (toString i))).toList
    let (count, r) := iterate descend container node rows r
    let r := r.note (.eachExpanded name elements.length)
    (count, (r.remove node).discard node)

/-! ## Conditions -/

/-- Whether `LEFT OP RIGHT` holds; what cannot be read does not hold. -/
def condition (node : NodeId) (params : String) (r : Run) : Bool × Run :=
  match splitSpace params.toList with
  | left :: operator :: right :: others =>
    let r := if others.isEmpty then r else r.note (.trailingTokens params)
    let (left, r) := r.interpolate warns node node (String.ofList left)
    let (right, r) := r.interpolate warns node node (String.ofList right)
    match Comparison.ofText? (String.ofList operator) with
    | some comparison => (comparison.holds (.ofText left) (.ofText right), r)
    | none => (false, r.note (.unknownOperator (String.ofList operator)))
  | _ => (false, r.note (.malformedCondition params))

/-- The `@else` right after a node. -/
def elseBranch? (r : Run) (node : NodeId) : Option NodeId :=
  (r.sheet.nextSibling? node).filter fun next => (r.sheet.content next).atRuleName? == some "else"

/-- Puts the expanded children of the branch that a condition takes in front of it. -/
def takeBranch (node : NodeId) (holds : Bool) (other : Option NodeId) (r : Run) : Nat × Run :=
  match holds, other with
  | true, other =>
    let r := descend node r
    let children := r.sheet.children node
    let r := match other with
      | some branch => r.remove branch
      | none => r
    r.insertBefore node children
  | false, some branch =>
    let r := descend branch r
    let (count, r) := r.insertBefore node (r.sheet.children branch)
    (count, (r.remove branch).discard branch)
  | false, none => (0, r)

/-- `@if LEFT OP RIGHT` and the `@else` right after it. -/
def expandIf (node : NodeId) (params : String) (r : Run) : Nat × Run :=
  let (holds, r) := condition warns node params r
  let other := r.elseBranch? node
  let r := r.note (.conditionEvaluated params holds)
  let (count, r) := takeBranch descend node holds other r
  (count, (r.remove node).discard node)

end Run

end StyleExpand
