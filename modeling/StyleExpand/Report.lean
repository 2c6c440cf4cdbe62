import StyleExpand.Sheet.Entry
import StyleExpand.Sheet.Basic
import StyleExpand.Number.Shortest

/-!
# What a run reports

A run never fails. It warns of references that have no value, and it notes what it does; both go
into one row of events, in the order in which they happen.
-/

namespace StyleExpand

/-- A reference to `$name` in `text` that had no value, found at a node. -/
structure Warning where
  name : String
  text : String
  node : NodeId
  position : Option Position
  deriving DecidableEq

namespace Warning

def message (w : Warning) : String :=
  "Could not resolve variable \"$" ++ w.name ++ "\" within \"" ++ w.text ++ "\""

/-- The message after the position, where there is one. -/
def line (w : Warning) : String :=
  match w.position with
  | some p => p.text ++ ": " ++ w.message
  | none => w.message

end Warning

/-- A step of a run that is worth a note. -/
inductive Note where
  | started (bindings : Nat)
  | keptValue (name : String)
  | loopWithoutParameters
  | malformedLoop (params : String)
  | stalled (step current : Double)
  | loopExpanded (name : String) (iterations : Nat)
  | eachWithoutName
  | eachExpanded (name : String) (iterations : Nat)
  | malformedCondition (params : String)
  | trailingTokens (params : String)
  | unknownOperator (operator : String)
  | conditionEvaluated (params : String) (holds : Bool)
  deriving DecidableEq

/-- The text of a number in a note. -/
def noteNumber (x : Double) : String := String.ofList (x.write "inf".toList)

def Note.message : Note → String
  | .started bindings =>
    "Processing stylesheet with " ++ toString bindings ++ " initial variable(s)"
  | .keptValue name => "Keeping existing value of $" ++ name ++ " over default"
  | .loopWithoutParameters => "@for without parameters, dropping it"
  | .malformedLoop params => "Malformed @for parameters '" ++ params ++ "'"
  | .stalled step current =>
    "@for step " ++ noteNumber step ++ " no longer advances from " ++ noteNumber current ++
      ", stopping"
  | .loopExpanded name iterations =>
    "@for $" ++ name ++ " expanded " ++ toString iterations ++ " iteration(s)"
  | .eachWithoutName => "@each without a binding name, dropping it"
  | .eachExpanded name iterations =>
    "@each $" ++ name ++ " expanded " ++ toString iterations ++ " iteration(s)"
  | .malformedCondition params => "Malformed @if condition '" ++ params ++ "'"
  | .trailingTokens params => "Ignoring trailing tokens in @if condition '" ++ params ++ "'"
  | .unknownOperator operator => "Unknown @if operator '" ++ operator ++ "'"
  | .conditionEvaluated params holds =>
    "@if " ++ params ++ " evaluated to " ++ if holds then "true" else "false"

/-- An event of a run. -/
inductive Event where
  | warning (w : Warning)
  | note (n : Note)
  deriving DecidableEq

namespace Event

def warning? : Event → Option Warning
  | .warning w => some w
  | .note _ => none

/-- The text of an event in a log. -/
def line : Event → String
  | .warning w => w.line
  | .note n => n.message

end Event

end StyleExpand
