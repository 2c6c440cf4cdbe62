import StyleExpand.Options.Reader
import StyleExpand.Run.Walk
import StyleExpand.Sheet.Outline

/-!
# What a run of the program does

A request is first worked out: that gives the lines to report and the text to deliver, or an error.
Only then is the text delivered, so a run that fails delivers nothing.

* `Request.prepare`: the lines and the text of a request;
* `Preparation.finish`: the exit code and all lines, once the text was delivered or was not;
* `Host`: what a run needs of the machine it runs on, and `Host.run`: a whole run there.
-/

namespace StyleExpand

/-! ## Reports -/

inductive Level where
  | debug
  | info
  deriving DecidableEq

def Level.label : Level → String
  | .debug => "DEBUG"
  | .info => "INFO"

/-- A line on the standard error: a message as it is, or an entry of the log with its time. -/
inductive ReportLine where
  | message (text : String)
  | log (level : Level) (text : String)
  deriving DecidableEq

/-- The text of a line, with the given time for entries of the log. -/
def ReportLine.text (time : String) : ReportLine → String
  | .message text => text
  | .log level text => "[" ++ time ++ "] [" ++ level.label ++ "] " ++ text

/-- Whether a line is shown; the log is for verbose runs. -/
def ReportLine.isShown (verbose : Bool) : ReportLine → Bool
  | .message _ => true
  | .log _ _ => verbose

/-- The name of the program in its usage lines. -/
def programName : String := "advanced_variables"

def usage : List String :=
  ["Usage: " ++ programName ++ " [OPTIONS] <input>",
    "  <input>                 Stylesheet to process, '-' for stdin",
    "  --config <file>         Options file (.json, .yaml or .yml)",
    "  --var NAME=VALUE        Initial variable, may be repeated",
    "  --no-warn               Do not report unresolved variables",
    "  --dump-tree             Print the processed syntax tree instead of CSS",
    "  -o, --output <file>     Write the result to a file instead of stdout",
    "  -v                      Verbose logging",
    "Example: " ++ programName ++ " --var primary=#333 theme.css"]

/-! ## Working out a request -/

/-- What a request is worked out from: its options, its source text, and what was read from that. -/
structure Material where
  options : Options
  source : String
  sheet : Sheet

/-- The lines so far, and the text to deliver with its number of warnings. -/
structure Preparation where
  lines : List ReportLine
  result : Except Error (String × Nat)

namespace Request

/-- The variables of a request and its switch, over the options that it starts from. -/
def optionsOver (r : Request) (base : Options) : Options :=
  let o := base.withVariables r.bindings
  if r.silent then { o with warnUnresolved := false } else o

/-- The text of a request's result. -/
def resultText (r : Request) (sheet : Sheet) : String :=
  if r.outline then sheet.outline else sheet.print

/-- Works out a request with the given input. -/
def prepare (r : Request) (input : String) : Except Error Material → Preparation
  | .error e => ⟨[], .error e⟩
  | .ok material =>
    let run := (Run.start material.sheet).process material.options
    let size := toString material.source.utf8ByteSize
    let lines := .log .info ("Parsed " ++ input ++ " (" ++ size ++ " bytes)") ::
      run.events.toList.map (fun e => .log .debug e.line) ++
      run.warnings.map fun w => .message (input ++ ":" ++ w.line)
    ⟨lines, .ok (r.resultText run.sheet, run.warnings.length)⟩

end Request

/-! ## Exits -/

/-- An exit code and the lines of a whole run. -/
structure Exit where
  code : Nat
  lines : List ReportLine
  deriving DecidableEq

namespace Preparation

/-- Ends a run; `failure` is the error of the delivery, if that failed. -/
def finish (p : Preparation) (failure : Option Error) : Exit :=
  match p.result, failure with
  | .error e, _ => ⟨1, p.lines ++ [.message e.message]⟩
  | .ok _, some e => ⟨1, p.lines ++ [.message e.message]⟩
  | .ok (_, warnings), none =>
    ⟨0, p.lines ++ [.log .info ("Finished with " ++ toString warnings ++ " warning(s)")]⟩

end Preparation

/-- A run without a request that could be worked out. -/
def Exit.withUsage (lines : List String) : Exit := ⟨1, (lines ++ usage).map .message⟩

/-- The lines that a run shows. -/
def Exit.shown (e : Exit) (verbose : Bool) : Exit :=
  { e with lines := e.lines.filter (·.isShown verbose) }

/-! ## Whole runs -/

/-- What a run needs of the machine it runs on. -/
structure Host (m : Type → Type) where
  /-- The bytes of a file, if it can be read. -/
  readFile? : String → m (Option ByteArray)
  readStandardInput? : m (Option ByteArray)
  /-- Writes a text to a file and says whether that could be done. -/
  writeFile : String → String → m Bool
  writeStandardOutput : String → m Bool
  optionsReader : OptionsReader

namespace Host

variable {m : Type → Type} [Monad m] (host : Host m)

def readText? (path : String) : m (Option String) := do
  return (← host.readFile? path).bind String.fromUTF8?

/-- The options that a request starts from: those of its options file, or the defaults. -/
def baseOptions : Option String → m (Except Error Options)
  | none => return .ok .default
  | some path => do return host.optionsReader.ofFile path (← host.readText? path)

/-- The source text of an input. -/
def sourceText (input : String) : m (Except Error String) := do
  if input = Request.standardInput then
    match (← host.readStandardInput?).bind String.fromUTF8? with
    | some text => return .ok text
    | none => return .error .standardInputUnreadable
  else
    match ← host.readText? input with
    | some text => return .ok text
    | none => return .error (.inputUnreadable input)

/-- The material of a request; the options are read first, and the input only if they were found. -/
def material (r : Request) (input : String) : m (Except Error Material) := do
  match ← host.baseOptions r.config with
  | .error e => return .error e
  | .ok base =>
    match ← host.sourceText input with
    | .error e => return .error e
    | .ok source =>
      match Sheet.parse source with
      | .error e => return .error (.source e)
      | .ok sheet => return .ok ⟨r.optionsOver base, source, sheet⟩

/-- Delivers a text to the output file or to the standard output, and gives the error if that fails. -/
def deliver (output : Option String) (text : String) : m (Option Error) := do
  match output with
  | some path => return if ← host.writeFile path text then none else some (.unwritable path)
  | none => return if ← host.writeStandardOutput text then none else some .standardOutputUnwritable

/-- A run with a request and its input. -/
def runRequest (r : Request) (input : String) : m Exit := do
  let p := r.prepare input (← host.material r input)
  match p.result with
  | .error _ => return (p.finish none).shown r.verbose
  | .ok (text, _) => return (p.finish (← host.deliver r.output text)).shown r.verbose

/-- A run with the given arguments. -/
def run (arguments : List String) : m Exit :=
  match Request.read arguments with
  | .error e => return .withUsage [(Error.argument e).message]
  | .ok r =>
    match r.input with
    | none => return .withUsage []
    | some input => host.runRequest r input

end Host

end StyleExpand
