import StyleExpand.Options.Given
import StyleExpand.Yaml.Node
import StyleExpand.Yaml.Plain

/-!
# Options in YAML

A mapping with the fields `warnOfUnresolved` and `variables`. An empty document gives the defaults.
Fields of other names are passed over, and those two may not be given twice.
-/

namespace StyleExpand

namespace Options

open Yaml (Document Style)

/-- The tag of a standard type. -/
def standardTag (name : String) : String := "tag:yaml.org,2002:" ++ name

/-- An integer as the value of a variable; one that is too wide is refused. -/
def ofYamlInteger? (cs : List Char) : Option String :=
  match (Yaml.integer? cs).map Yaml.IntegerSize.of with
  | some (.fits amount) => some amount.text
  | _ => none

/-- The text of a plain scalar without a tag as the value of a variable. -/
def ofYamlPlain? (s : String) : Option String :=
  let cs := s.toList
  if s.isEmpty || Yaml.isNull s then none
  else if let some value := Yaml.flag? s then some (flagText value)
  else
    match (Yaml.integer? cs).map Yaml.IntegerSize.of with
    | some (.fits amount) => some amount.text
    | some .tooWide => none
    | _ =>
      if Yaml.hasLeadingZero cs then some s
      else
        match Yaml.double? cs with
        | some x => some x.text
        | none => some s

/-- The text of a scalar as the value of a variable; a tag decides before its style. -/
def ofYamlScalar? (tag : Option String) (s : String) (style : Style) : Option String :=
  match tag with
  | some tag =>
    if tag.startsWith "!" then none
    else if tag = standardTag "bool" then (Yaml.flag? s).map flagText
    else if tag = standardTag "int" then ofYamlInteger? s.toList
    else if tag = standardTag "float" then (Yaml.double? s.toList).map Double.text
    else if tag = standardTag "null" then none
    else some s
  | none => if style = .plain then ofYamlPlain? s else some s

/-- The text of a key: any scalar will do. -/
def ofYamlKey? (d : Document) (key : Yaml.Node) : Option String :=
  match d.follow? key with
  | some (.scalar _ s _) => some s
  | _ => none

/-- Variables and their texts. -/
def ofYamlEntries? (d : Document) :
    List (Yaml.Node × Yaml.Node) → Option (List (String × String))
  | [] => some []
  | (key, value) :: rest =>
    match ofYamlKey? d key, d.follow? value, ofYamlEntries? d rest with
    | some name, some (.scalar p s style), some pairs =>
      (ofYamlScalar? p.tag s style).map fun text => (name, text) :: pairs
    | _, _, _ => none

/-- The variables of the options; there may be none. -/
def ofYamlVariables? (d : Document) (node : Yaml.Node) : Option (List (String × String)) :=
  match d.follow? node with
  | some (.mapping _ entries) => ofYamlEntries? d entries
  | some (.scalar p s .plain) =>
    match p.tag with
    | none => if s.isEmpty || Yaml.isNull s then some [] else none
    | some tag =>
      if tag = standardTag "null" then if Yaml.isNull s then some [] else none
      else if s.isEmpty then some []
      else none
  | _ => none

/-- A truth value: a plain scalar, or a literal block with that tag. -/
def ofYamlFlag? (d : Document) (node : Yaml.Node) : Option Bool :=
  match d.follow? node with
  | some (.scalar p s style) =>
    if style = .plain ∨ (style = .literal ∧ p.tag = some (standardTag "bool")) then Yaml.flag? s
    else none
  | _ => none

/-- Reads the fields of a mapping one after the other. -/
def ofYamlMapping? (d : Document) (given : Given) : List (Yaml.Node × Yaml.Node) → Option Given
  | [] => some given
  | (key, value) :: rest =>
    match ofYamlKey? d key with
    | none => none
    | some name =>
      if name = warnKey then
        match given.warnUnresolved, ofYamlFlag? d value with
        | none, some flag => ofYamlMapping? d { given with warnUnresolved := some flag } rest
        | _, _ => none
      else if name = variablesKey then
        match given.bindings, ofYamlVariables? d value with
        | none, some pairs => ofYamlMapping? d { given with bindings := some pairs } rest
        | _, _ => none
      else ofYamlMapping? d given rest

def ofYamlDocument? (d : Document) : Option Given :=
  match d.root with
  | .mapping _ entries => ofYamlMapping? d .nothing entries
  | .scalar _ s .plain => if s.isEmpty then some .nothing else none
  | _ => none

/-- The options that a YAML text holds. -/
def ofYaml? (content : String) : Option Options :=
  match Document.read? content.toList with
  | none => none
  | some none => some Options.default
  | some (some d) => (ofYamlDocument? d).map Given.complete

end Options

end StyleExpand
