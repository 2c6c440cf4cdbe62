import StyleExpand.CommandLine.Request
import StyleExpand.Sheet.Token

/-!
# Errors

Everything that can end a run of the program, and its text.
-/

namespace StyleExpand

/-- The format of an options file. -/
inductive Format where
  | json
  | yaml
  deriving DecidableEq

def Format.label : Format → String
  | .json => "JSON"
  | .yaml => "YAML"

inductive Error where
  | optionsUnreadable (path : String)
  | inputUnreadable (path : String)
  | standardInputUnreadable
  | unwritable (path : String)
  | standardOutputUnwritable
  /-- Options that cannot be understood, from a text or from a file. -/
  | options (format : Format) (path : Option String)
  | source (cause : ParseError)
  | argument (cause : ArgumentError)
  deriving DecidableEq

def Error.message : Error → String
  | .optionsUnreadable path => "IO error: Failed to read options file " ++ path
  | .inputUnreadable path => "IO error: Failed to read " ++ path
  | .standardInputUnreadable => "IO error: Failed to read stdin"
  | .unwritable path => "IO error: Failed to write " ++ path
  | .standardOutputUnwritable => "IO error: Failed to write stdout"
  | .options format none => format.label ++ " error: " ++ format.label ++ " operation failed"
  | .options format (some path) => format.label ++ " error: Invalid options file " ++ path
  | .source cause => cause.message
  | .argument cause => "Invalid argument: " ++ cause.message

end StyleExpand
