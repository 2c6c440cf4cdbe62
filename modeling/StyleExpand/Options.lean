import Std.Data.TreeMap
import StyleExpand.Text.Blank

/-!
# Options of a run

Whether references without a value are reported, and the variables that the root starts with.
`readAssignment` reads one variable from a command line.
-/

namespace StyleExpand

/-- The options of a run; its variables are sorted by name. -/
structure Options where
  warnUnresolved : Bool
  bindings : Std.TreeMap String String

namespace Options

/-- Warnings on, and no variables. -/
def default : Options := ⟨true, ∅⟩

instance : Inhabited Options := ⟨default⟩

/-- Adds a variable, or replaces the one of that name. -/
def withVariable (o : Options) (name value : String) : Options :=
  { o with bindings := o.bindings.insert name value }

/-- Adds variables one after the other. -/
def withVariables (o : Options) (pairs : List (String × String)) : Options :=
  pairs.foldl (fun o pair => o.withVariable pair.1 pair.2) o

end Options

/-! ## Assignments on a command line -/

/-- Why an assignment cannot be read. -/
inductive AssignmentError where
  | noEqualsSign (assignment : String)
  | noName (assignment : String)
  deriving DecidableEq

def AssignmentError.message : AssignmentError → String
  | .noEqualsSign assignment => "Expected NAME=VALUE, got '" ++ assignment ++ "'"
  | .noName assignment => "Missing variable name in '" ++ assignment ++ "'"

/-- Reads `NAME=VALUE`; both sides are trimmed, and dollar signs before the name are dropped. -/
def readAssignment (assignment : String) : Except AssignmentError (String × String) :=
  match Text.cutOnce ['='] assignment.toList with
  | none => .error (.noEqualsSign assignment)
  | some (left, right) =>
    let name := (Text.trim left).dropWhile (· == '$')
    if name.isEmpty then .error (.noName assignment)
    else .ok (String.ofList name, String.ofList (Text.trim right))

end StyleExpand
