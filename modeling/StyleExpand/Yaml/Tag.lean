import StyleExpand.Text.Hex
import StyleExpand.Yaml.Cursor

/-!
# Tags of YAML

A tag names the type of a node. It is written in full, or with a handle that stands for its start.

* `Tag.read?`: a tag in front of a node;
* `Handles.ofDirectives?`: the handles that a document declares, and the two that it always has;
* `Handles.expand?`: the full name of a tag.
-/

namespace StyleExpand.Yaml

/-- A tag as it is written; the handle is empty if the name is given in full. -/
structure Tag where
  handle : List Char
  suffix : List Char
  deriving DecidableEq

namespace Tag

/-! ## Names -/

/-- The characters of a name; commas and square brackets only where it is given in full. -/
def isUriChar (full : Bool) (c : Char) : Bool :=
  isNameChar c || c ∈ ";/?:@&=+$.!~*'()".toList || (full && c ∈ [',', '[', ']'])

/-- The byte of an escape such as `%2F`. -/
def escapedByte? (cs : List Char) : Option Nat :=
  match cs with
  | '%' :: a :: b :: _ => Text.hexValue? [a, b]
  | _ => none

/-- How many bytes a character takes that starts with the given one. -/
def byteCount? (first : Nat) : Option Nat :=
  if first < 0x80 then some 1
  else if first / 0x20 = 0x6 then some 2
  else if first / 0x10 = 0xE then some 3
  else if first / 0x8 = 0x1E then some 4
  else none

/-- Bytes inside a character, given by escapes. -/
def innerBytes? : Nat → List Char → Option (List Nat)
  | 0, _ => some []
  | n + 1, cs =>
    match escapedByte? cs with
    | some byte =>
      if byte / 0x40 = 0x2 then (innerBytes? n (cs.drop 3)).map (byte :: ·) else none
    | none => none

/-- The character that a row of escapes gives, and how many escapes that takes. -/
def escaped? (cs : List Char) : Option (Char × Nat) := do
  let first ← escapedByte? cs
  let count ← byteCount? first
  let inner ← innerBytes? (count - 1) (cs.drop 3)
  let bytes := ByteArray.mk ((first :: inner).map UInt8.ofNat).toArray
  let text := (String.fromUTF8? bytes).map String.toList
  return ((text.bind List.head?).getD '\ufffd', count)

/-- The characters of a name, and the place behind them. -/
def nameFrom (full : Bool) : Nat → Cursor → Option (List Char × Cursor)
  | 0, _ => none
  | fuel + 1, c =>
    match c.rest with
    | [] => some ([], c)
    | x :: _ =>
      if x = '%' then
        match escaped? c.rest with
        | some (y, count) =>
          (nameFrom full fuel (c.skip (3 * count))).map fun found => (y :: found.1, found.2)
        | none => none
      else if isUriChar full x then
        (nameFrom full fuel c.next).map fun found => (x :: found.1, found.2)
      else some ([], c)

/-- The name at a place; it may be empty, and a null character ends it. -/
def name? (full : Bool) (c : Cursor) : Option (List Char × Cursor) :=
  (nameFrom full (c.rest.length + 1) c).map fun found =>
    (found.1.takeWhile (· != '\x00'), found.2)

/-- A name of at least one character. -/
def nonemptyName? (full : Bool) (c : Cursor) : Option (List Char × Cursor) :=
  match name? full c with
  | some (name, after) => if after.rest.length = c.rest.length then none else some (name, after)
  | none => none

/-! ## Tags -/

/-- A handle: a mark, name characters, and another mark if one follows. -/
def handle? (c : Cursor) : Option (List Char × Cursor) :=
  if c.rest.head? == some '!' then
    let (name, c) := c.next.span isNameChar
    if c.rest.head? == some '!' then some ('!' :: name ++ ['!'], c.next) else some ('!' :: name, c)
  else none

/-- Whether a handle has a mark at both ends. -/
def isClosed (handle : List Char) : Bool := 1 < handle.length && handle.getLast? == some '!'

/-- A tag and the place behind it; `!` alone is a name in full. -/
def body? (c : Cursor) : Option (Tag × Cursor) := do
  if c.rest.take 2 = ['!', '<'] then
    let (name, c) ← nonemptyName? true (c.skip 2)
    if c.rest.head? == some '>' then return (⟨[], name⟩, c.next) else none
  else
    let (handle, c) ← handle? c
    if isClosed handle then
      let (suffix, c) ← nonemptyName? false c
      return (⟨handle, suffix⟩, c)
    else
      let (more, c) ← name? false c
      let suffix := handle.drop 1 ++ more
      return (if suffix.isEmpty then ⟨[], ['!']⟩ else ⟨['!'], suffix⟩, c)

/-- The tag at a place. A gap has to follow it, or a comma inside brackets. -/
def read? (inFlow : Bool) (c : Cursor) : Option (Tag × Cursor) :=
  match body? c with
  | some (tag, c) =>
    if gapOrEnd c.rest || (inFlow && c.rest.head? == some ',') then some (tag, c) else none
  | none => none

end Tag

/-! ## Directives -/

/-- A line that is addressed to the reader of a document. -/
inductive Directive where
  | version (major minor : Nat)
  | tagHandle (name start : List Char)
  deriving DecidableEq

namespace Directive

/-- A number of at most nine digits. -/
def number? (c : Cursor) : Option (Nat × Cursor) :=
  let (digits, after) := c.span Char.isDigit
  if digits.isEmpty || 9 < digits.length then none
  else some (Nat.ofDigitChars 10 digits 0, after)

def version? (c : Cursor) : Option (Directive × Cursor) := do
  let (major, c) ← number? (c.skipWhile isSpace)
  if c.rest.head? == some '.' then
    let (minor, c) ← number? c.next
    return (.version major minor, c)
  else none

/-- A handle and the start of the names that it stands for. -/
def tag? (c : Cursor) : Option (Directive × Cursor) := do
  let (handle, c) ← Tag.handle? (c.skipWhile isSpace)
  if (Tag.isClosed handle || handle == ['!']) && c.rest.head?.any isSpace then
    let (start, c) ← Tag.nonemptyName? true (c.skipWhile isSpace)
    if gapOrEnd c.rest then return (.tagHandle handle start, c) else none
  else none

/-- The directive behind its mark, with the rest of its line. -/
def read? (c : Cursor) : Option (Directive × Cursor) := do
  let (name, c) := c.span isNameChar
  if gapOrEnd c.rest then
    let (found, c) ←
      if name = "YAML".toList then version? c
      else if name = "TAG".toList then tag? c
      else none
    let c ← c.skipLine?
    return (found, c)
  else none

end Directive

/-! ## Handles -/

/-- What the handles of a document stand for; the first entry of a name counts. -/
abbrev Handles := List (List Char × List Char)

namespace Handles

/-- The handles of every document. -/
def standard : Handles := [(['!'], ['!']), (['!', '!'], "tag:yaml.org,2002:".toList)]

def isKnownVersion (major minor : Nat) : Bool := major == 1 && (minor == 1 || minor == 2)

/-- The handles of a document; it may not declare one twice, nor two versions. -/
def ofDirectives? (directives : List Directive) : Option Handles :=
  let versions := directives.filterMap fun
    | .version major minor => some (major, minor)
    | .tagHandle _ _ => none
  let declared := directives.filterMap fun
    | .version _ _ => none
    | .tagHandle name start => some (name, start)
  if versions.length ≤ 1 ∧ versions.all (fun v => isKnownVersion v.1 v.2) ∧
      (declared.map Prod.fst).Nodup then
    some (declared ++ standard)
  else none

/-- The full name of a tag; its handle has to be known. -/
def expand? (handles : Handles) (tag : Tag) : Option String :=
  if tag.handle.isEmpty then some (String.ofList tag.suffix)
  else (handles.lookup tag.handle).map fun start => String.ofList (start ++ tag.suffix)

end Handles

end StyleExpand.Yaml
