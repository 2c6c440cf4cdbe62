import StyleExpand.Json.Number
import StyleExpand.Options.Given

/-!
# Options in JSON

An object with the members `warnOfUnresolved` and `variables`, or a list of the two. Members of
other names are passed over, those two may not be given twice, and of two variables of one name the
last one counts.
-/

namespace StyleExpand

namespace Options

/-- The text of a variable's value. -/
def ofJsonScalar? : JsonValue → Option String
  | .string units => (JsonUnit.text? units).map String.ofList
  | .number n => n.amount?.map Amount.text
  | .bool value => some (flagText value)
  | _ => none

/-- Variables and their texts. -/
def ofJsonMembers? : List (List JsonUnit × JsonValue) → Option (List (String × String))
  | [] => some []
  | (key, value) :: rest =>
    match JsonUnit.text? key, ofJsonScalar? value, ofJsonMembers? rest with
    | some name, some text, some pairs => some ((String.ofList name, text) :: pairs)
    | _, _, _ => none

/-- The variables of the options; there may be none. -/
def ofJsonVariables? : JsonValue → Option (List (String × String))
  | .null => some []
  | .object members => ofJsonMembers? members
  | _ => none

def ofJsonFlag? : JsonValue → Option Bool
  | .bool value => some value
  | _ => none

/-- Reads the members of an object one after the other. -/
def ofJsonObject? (given : Given) : List (List JsonUnit × JsonValue) → Option Given
  | [] => some given
  | (key, value) :: rest =>
    match (JsonUnit.text? key).map String.ofList with
    | none => none
    | some name =>
      if name = warnKey then
        match given.warnUnresolved, ofJsonFlag? value with
        | none, some flag => ofJsonObject? { given with warnUnresolved := some flag } rest
        | _, _ => none
      else if name = variablesKey then
        match given.bindings, ofJsonVariables? value with
        | none, some pairs => ofJsonObject? { given with bindings := some pairs } rest
        | _, _ => none
      else ofJsonObject? given rest

def ofJsonValue? : JsonValue → Option Given
  | .object members => ofJsonObject? .nothing members
  | .array [] => some .nothing
  | .array [flag] => (ofJsonFlag? flag).map fun flag => ⟨some flag, none⟩
  | .array [flag, bindings] =>
    match ofJsonFlag? flag, ofJsonVariables? bindings with
    | some flag, some pairs => some ⟨some flag, some pairs⟩
    | _, _ => none
  | _ => none

/-- The options that a JSON text holds. -/
def ofJson? (content : String) : Option Options :=
  match JsonValue.read? content.toList with
  | some value => (ofJsonValue? value).map Given.complete
  | none => none

end Options

end StyleExpand
