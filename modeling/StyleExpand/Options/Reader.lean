import StyleExpand.Error
import StyleExpand.Text.Blank

/-!
# Options files

The name of a file tells its format. How a text of that format is understood is left to a reader, of
which nothing is assumed.

* `OptionsReader.ofText?`: the options that a text holds;
* `OptionsReader.ofFile`: the options of a file, or why there are none.
-/

namespace StyleExpand

/-- What follows the last dot of a file's name, unless the name starts with that dot. -/
def extension? (path : String) : Option (List Char) :=
  let reversedName := path.toList.reverse.takeWhile (· != '/')
  match reversedName.span (· != '.') with
  | (reversed, '.' :: _ :: _) => some reversed.reverse
  | _ => none

/-- The format of an options file. -/
def Format.ofPath (path : String) : Format :=
  if (extension? path).any fun e => e.map Char.toLower == "json".toList then .json else .yaml

/-- How the two formats are understood; a text that cannot be understood gives nothing. -/
structure OptionsReader where
  json? : String → Option Options
  yaml? : String → Option Options

namespace OptionsReader

/-- The options that a text holds. A blank text in YAML gives the defaults. -/
def ofText? (reader : OptionsReader) (format : Format) (content : String) : Option Options :=
  match format with
  | .json => reader.json? content
  | .yaml => if (Text.trim content.toList).isEmpty then some .default else reader.yaml? content

/-- The options of a file, given its text if that could be read. -/
def ofFile (reader : OptionsReader) (path : String) (text : Option String) :
    Except Error Options :=
  match text with
  | none => .error (.optionsUnreadable path)
  | some content =>
    match reader.ofText? (.ofPath path) content with
    | some options => .ok options
    | none => .error (.options (.ofPath path) (some path))

end OptionsReader

end StyleExpand
