import Std.Data.TreeMap

/-!
# Files

What a run knows of files is what it can read at a path, and what is left when it has written there.

* `Disk`: the files of any machine, where a path may lead anywhere;
* `Files`: files that are held in memory, by their names below one directory, and `Files.disk`: how
  they are read and written.
-/

namespace StyleExpand

/-- Files that are read and written by their paths; `δ` are their states as a whole. -/
structure Disk (δ : Type) where
  /-- The bytes that a path leads to. -/
  read? : δ → String → Option ByteArray
  /-- Whether bytes could be written, and what is left then. -/
  write : δ → String → ByteArray → Bool × δ

namespace Disk

/-- The text that a path leads to; the bytes have to be one. -/
def text? {δ : Type} (disk : Disk δ) (files : δ) (path : String) : Option String :=
  (disk.read? files path).bind String.fromUTF8?

end Disk

/-! ## Files in memory -/

/-- The contents of files, by name; the parts of a name are divided by slashes. -/
abbrev Files := Std.TreeMap String ByteArray

namespace Files

/-- The name of a file with the given parts. -/
def joinParts (parts : List String) : String := String.intercalate "/" parts

/-- Whether parts name a directory: none does, and so do those in front of a file. -/
def isDirectory (files : Files) (parts : List String) : Bool :=
  parts.isEmpty || files.keys.any fun name => (joinParts parts ++ "/").isPrefixOf name

/-- The longest name of a file, and the length that no path reaches, in bytes. -/
def longestName : Nat := 255

def pathLimit : Nat := 4096

/--
Goes along the parts of a path, from the directory with the reversed parts `inside`. An empty part
and a single dot stay where they are, and two dots go up.
-/
def follow? (files : Files) (inside : List String) : List String → Option (List String)
  | [] => some inside
  | part :: parts =>
    if !files.isDirectory inside.reverse then none
    else if part = "" ∨ part = "." then files.follow? inside parts
    else if part = ".." then
      match inside with
      | [] => none
      | _ :: outside => files.follow? outside parts
    else if longestName < part.utf8ByteSize ∨ part.toList.contains '\x00' then none
    else files.follow? (part :: inside) parts

/-- The name that a path stands for. Nothing is held in memory but the one directory, so a path that
leads out of it stands for no name. -/
def locate? (files : Files) (path : String) : Option String :=
  if path.isEmpty || path.startsWith "/" || pathLimit ≤ path.utf8ByteSize then none
  else
    match files.follow? [] ((path.toList.splitOn '/').map String.ofList) with
    | some (name :: inside) =>
      let parts := (name :: inside).reverse
      if files.isDirectory parts then none else some (joinParts parts)
    | _ => none

/-- Reading and writing in memory. -/
def disk : Disk Files where
  read? files path := (files.locate? path).bind (files[·]?)
  write files path bytes :=
    match files.locate? path with
    | some name => (true, files.insert name bytes)
    | none => (false, files)

/-- The text of a file. -/
def readText? (files : Files) (path : String) : Option String := disk.text? files path

end Files

end StyleExpand
