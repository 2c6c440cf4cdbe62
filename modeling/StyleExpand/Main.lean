import Std.Time
import StyleExpand.CommandLine.Host
import StyleExpand.Options.File

/-!
# The program

A run on the machine that the program is started on. What is left to do here is to read and write, and
to report the lines of the run.
-/

namespace StyleExpand.Program

/-- The answer of an action, or nothing if it fails. -/
def attempt {α : Type} (action : IO α) : IO (Option α) := do
  try return some (← action)
  catch _ => return none

def host : Host IO where
  readFile? path := attempt (IO.FS.readBinFile path)
  readStandardInput? := attempt do (← IO.getStdin).readBinToEnd
  writeFile path text := return (← attempt (IO.FS.writeFile path text)).isSome
  writeStandardOutput text := do
    let out ← IO.getStdout
    return (← attempt (do out.putStr text; out.flush)).isSome
  optionsReader := .standard

/-- The time of an entry in the log. -/
def now : IO String := do
  let time := Std.Time.DateTime.ofTimestamp (← Std.Time.Timestamp.now) .UTC
  return time.format "uuuu-MM-dd HH:mm:ss.SSS"

/-- Reports the lines of a run and gives its exit code. -/
def report (e : Exit) : IO UInt32 := do
  for line in e.lines do
    IO.eprintln (line.text (← now))
  return UInt32.ofNat e.code

end StyleExpand.Program

open StyleExpand in
/-- The exit code is zero exactly if the text was delivered. -/
def main (arguments : List String) : IO UInt32 := do
  Program.report (← Program.host.run arguments)
