import StyleExpand.Number.Amount
import StyleExpand.Options
import StyleExpand.Value.Operand

/-!
# Options of which some are given

What an options file may hold, whatever its format: the names of its two fields, the texts of the
scalars that variables take, and the defaults of what is not given.
-/

namespace StyleExpand

/-- The text of a number as the value of a variable. -/
def Amount.text : Amount → String
  | .integer n => toString n
  | .double x => x.text

namespace Options

/-- The field that turns warnings on or off. -/
def warnKey : String := "warnOfUnresolved"

/-- The field that holds the variables. -/
def variablesKey : String := "variables"

/-- The text of a truth value as the value of a variable. -/
def flagText (value : Bool) : String := if value then "true" else "false"

/-- The fields that an options file gives. -/
structure Given where
  warnUnresolved : Option Bool
  bindings : Option (List (String × String))

namespace Given

def nothing : Given := ⟨none, none⟩

/-- Options with the defaults for what is not given; the last variable of a name counts. -/
def complete (given : Given) : Options :=
  let start : Options := { Options.default with warnUnresolved := given.warnUnresolved.getD true }
  start.withVariables (given.bindings.getD [])

end Given

end Options

end StyleExpand
