import StyleExpand.Options.Json
import StyleExpand.Options.Reader
import StyleExpand.Options.Yaml

/-!
# Options in JSON and YAML files

The reader of the two formats that the program uses.
-/

namespace StyleExpand

def OptionsReader.standard : OptionsReader := ⟨Options.ofJson?, Options.ofYaml?⟩

namespace Options

/-- The options that a text holds, or the error of its format. -/
def ofText (format : Format) (content : String) : Except Error Options :=
  match OptionsReader.standard.ofText? format content with
  | some options => .ok options
  | none => .error (.options format none)

/-- The options of a file, given how files are read. -/
def ofFile (read? : String → Option String) (path : String) : Except Error Options :=
  OptionsReader.standard.ofFile path (read? path)

end Options

end StyleExpand
