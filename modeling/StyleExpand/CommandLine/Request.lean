import StyleExpand.Options

/-!
# Requests on a command line

* `Request.read`: the request that arguments make;
* `ArgumentError`: why arguments make none.
-/

namespace StyleExpand

/-- What the arguments ask for. -/
structure Request where
  input : Option String
  output : Option String
  config : Option String
  /-- The variables in the order in which they are given. -/
  bindings : List (String × String)
  /-- Whether warnings are turned off. -/
  silent : Bool
  /-- Whether the outline of the tree takes the place of its text. -/
  outline : Bool
  verbose : Bool
  deriving DecidableEq

/-- Why arguments cannot be read. -/
inductive ArgumentError where
  | noValue (flag : String)
  | unknownFlag (flag : String)
  | secondInput
  | assignment (cause : AssignmentError)
  deriving DecidableEq

def ArgumentError.message : ArgumentError → String
  | .noValue flag => flag ++ " expects a value"
  | .unknownFlag flag => "Unknown option '" ++ flag ++ "'"
  | .secondInput => "Only one input file can be given"
  | .assignment cause => cause.message

namespace Request

def nothing : Request := ⟨none, none, none, [], false, false, false⟩

/-- The path that stands for the standard input. -/
def standardInput : String := "-"

/-- A flag that takes the next argument as its value. -/
inductive ValueFlag where
  | config
  | variable
  | output
  deriving DecidableEq

def ValueFlag.ofText? : String → Option ValueFlag
  | "--config" => some .config
  | "--var" => some .variable
  | "-o" => some .output
  | "--output" => some .output
  | _ => none

/-- Adds the value of a flag; of several outputs or option files the last counts. -/
def withValue (r : Request) (flag : ValueFlag) (value : String) : Except ArgumentError Request :=
  match flag with
  | .config => .ok { r with config := some value }
  | .output => .ok { r with output := some value }
  | .variable =>
    match readAssignment value with
    | .ok pair => .ok { r with bindings := r.bindings ++ [pair] }
    | .error cause => .error (.assignment cause)

/-- Adds an argument that takes no value: a switch, or the input. -/
def withArgument (r : Request) (argument : String) : Except ArgumentError Request :=
  if argument = "--no-warn" then .ok { r with silent := true }
  else if argument = "--dump-tree" then .ok { r with outline := true }
  else if argument = "-v" ∨ argument = "--verbose" then .ok { r with verbose := true }
  else if argument.startsWith "-" ∧ argument ≠ standardInput then .error (.unknownFlag argument)
  else if r.input.isSome then .error .secondInput
  else .ok { r with input := some argument }

/-- Adds arguments from left to right, up to the first one that is wrong. -/
def withArguments (r : Request) : List String → Except ArgumentError Request
  | [] => .ok r
  | argument :: rest =>
    match ValueFlag.ofText? argument with
    | some flag =>
      match rest with
      | [] => .error (.noValue argument)
      | value :: rest =>
        match r.withValue flag value with
        | .ok r => r.withArguments rest
        | .error e => .error e
    | none =>
      match r.withArgument argument with
      | .ok r => r.withArguments rest
      | .error e => .error e

/-- The request that arguments make. -/
def read (arguments : List String) : Except ArgumentError Request :=
  nothing.withArguments arguments

end Request

end StyleExpand
