import StyleExpand.CommandLine.Host
import StyleExpand.Files
import StyleExpand.Options.File

/-!
# What is left after a run

A machine has a disk, a standard input to read and a standard output that can always be written.

* `Disk.host`: such a machine, with any disk and any reader of options files;
* `Disk.run`: what is left after a run on it;
* `CommandLine.run`: a run over files that are held in memory.
-/

namespace StyleExpand

/-- The state of a machine: its files, its standard input, and its standard output so far. -/
structure Machine (δ : Type) where
  files : δ
  standardInput : ByteArray
  output : String

/-- What is left after a run: its exit, its standard output, and the files. -/
structure Outcome (δ : Type) where
  exit : Exit
  output : String
  files : δ

namespace Disk

variable {δ : Type} (disk : Disk δ) (reader : OptionsReader)

def host : Host (StateM (Machine δ)) where
  readFile? path := do return disk.read? (← get).files path
  readStandardInput? := do return some (← get).standardInput
  writeFile path text := modifyGet fun machine =>
    let (written, files) := disk.write machine.files path text.toUTF8
    (written, { machine with files := files })
  writeStandardOutput text := modifyGet fun machine =>
    (true, { machine with output := machine.output ++ text })
  optionsReader := reader

def run (arguments : List String) (files : δ) (standardInput : ByteArray) : Outcome δ :=
  let (exit, machine) := (disk.host reader).run arguments ⟨files, standardInput, ""⟩
  ⟨exit, machine.output, machine.files⟩

end Disk

/-- A run with the given arguments, over the files of a directory. -/
def CommandLine.run (arguments : List String) (files : Files) (standardInput : ByteArray) :
    Outcome Files :=
  Files.disk.run .standard arguments files standardInput

end StyleExpand
