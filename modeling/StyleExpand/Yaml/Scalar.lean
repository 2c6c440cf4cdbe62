import StyleExpand.Text.Hex
import StyleExpand.Yaml.Cursor

/-!
# Scalars of YAML

A scalar is written plainly, in quotes, or as a block of indented lines. Each reader gives the text
of the scalar and the place behind it; a scalar that cannot be read has no text.

* `plain?`, `quoted?`, `block?`: the three ways to write a scalar;
* `joint`: what a gap between two parts of a scalar stands for.
-/

namespace StyleExpand.Yaml

inductive Style where
  | plain
  | quoted
  | literal
  | folded
  deriving DecidableEq

/-! ## Gaps -/

/--
The text of a gap. Within a line it stays; one line feed is a space, and of several the first one
is dropped.
-/
def joint (gap : List Char) : List Char :=
  match gap.filter isBreak with
  | [] => gap
  | first :: more =>
    if first = '\n' then if more.isEmpty then [' '] else more
    else first :: more

/-- Whether a tab stands among the first `indent` characters of a line that starts in the gap. -/
def tabInIndent (indent : Nat) (gap : List Char) : Bool :=
  ((gap.splitOnP isBreak).drop 1).any fun blanks => (blanks.take indent).contains '\t'

/-! ## Plain scalars -/

/-- The marks that end a plain scalar inside brackets. -/
def isFlowMark (c : Char) : Bool := c ∈ [',', '[', ']', '\x7b', '\x7d']

/-- The length of the run at the start of a text; none if a colon in it is ambiguous. -/
def runLength? (inFlow : Bool) : List Char → Option Nat
  | [] => some 0
  | c :: cs =>
    if isGap c then some 0
    else if inFlow && c == ':' && cs.head?.any (fun d => isFlowMark d || d == '?') then none
    else if (c == ':' && gapOrEnd cs) || (inFlow && isFlowMark c) then some 0
    else (runLength? inFlow cs).map (· + 1)

/-- A plain scalar that has been read. -/
structure Plain where
  text : List Char
  after : Cursor
  /-- Whether the scalar was followed by the end of its line. -/
  lineEnded : Bool

/--
Reads a plain scalar run by run. `gap` stands before the next run and counts only if that run is
not empty; `indent` is the least column of a line that goes on with the scalar.
-/
def plainFrom (inFlow : Bool) (indent : Nat) : Nat → List Char → Cursor → Option Plain
  | 0, _, _ => none
  | fuel + 1, gap, c =>
    let lineEnded := gap.any isBreak
    if c.atDocumentMark || c.rest.head? == some '#' then some ⟨[], c, lineEnded⟩
    else
      match runLength? inFlow c.rest with
      | none => none
      | some n =>
        let run := c.rest.take n
        let after := c.skip n
        let taken := if run.isEmpty then [] else joint gap ++ run
        let (next, behind) := after.span isGap
        if next.isEmpty then some ⟨taken, after, run.isEmpty && lineEnded⟩
        else if tabInIndent indent next then none
        else if !inFlow && behind.column < indent then
          some ⟨taken, behind, next.any isBreak⟩
        else
          (plainFrom inFlow indent fuel next behind).map fun more =>
            { more with text := taken ++ more.text }

/-- The plain scalar at a place. -/
def plain? (inFlow : Bool) (indent : Nat) (c : Cursor) : Option Plain :=
  plainFrom inFlow indent (c.rest.length + 1) [] c

/-! ## Quoted scalars -/

/-- The character that `width` hexadecimal digits give. -/
def codePoint? (width : Nat) (cs : List Char) : Option Char :=
  if cs.length < width then none
  else
    match Text.hexValue? (cs.take width) with
    | some n => if n.isValidChar then some (Char.ofNat n) else none
    | none => none

/-- The character of an escape by one letter. -/
def ofLetter? : Char → Option Char
  | '0' => some '\x00'
  | 'a' => some '\x07'
  | 'b' => some '\x08'
  | 't' => some '\t'
  | '\t' => some '\t'
  | 'n' => some '\n'
  | 'v' => some '\x0b'
  | 'f' => some '\x0c'
  | 'r' => some '\r'
  | 'e' => some '\x1b'
  | ' ' => some ' '
  | '"' => some '"'
  | '/' => some '/'
  | '\\' => some '\\'
  | 'N' => some '\u0085'
  | '_' => some '\u00a0'
  | 'L' => some '\u2028'
  | 'P' => some '\u2029'
  | _ => none

/-- The number of digits of an escape by number. -/
def escapeWidth? : Char → Option Nat
  | 'x' => some 2
  | 'u' => some 4
  | 'U' => some 8
  | _ => none

/-- The character of an escape without its backslash, and the length of that escape. -/
def escape? : List Char → Option (Char × Nat)
  | [] => none
  | letter :: cs =>
    match escapeWidth? letter with
    | some width => (codePoint? width cs).map (·, width + 1)
    | none => (ofLetter? letter).map (·, 1)

/-- What stands next in a scalar with double quotes, or with single quotes. -/
inductive Piece where
  | closing
  | char (c : Char) (length : Nat)
  | gap
  | joinedLine
  deriving DecidableEq

def piece? (double : Bool) : List Char → Option Piece
  | [] => none
  | '\'' :: '\'' :: _ => some (if double then .char '\'' 1 else .char '\'' 2)
  | c :: cs =>
    if c = (if double then '"' else '\'') then some .closing
    else if isGap c then some .gap
    else if double && c == '\\' then
      if cs.head?.any isBreak then some .joinedLine
      else (escape? cs).map fun found => .char found.1 (found.2 + 1)
    else some (.char c 1)

/-- Reads a scalar up to its closing quote. No line in it may look like the mark of a document. -/
def quotedFrom (double : Bool) : Nat → Cursor → Option (List Char × Cursor)
  | 0, _ => none
  | fuel + 1, c =>
    let andThen (text : List Char) (c : Cursor) :=
      (quotedFrom double fuel c).map fun found => (text ++ found.1, found.2)
    if c.atDocumentMark then none
    else
      match piece? double c.rest with
      | none => none
      | some .closing => some ([], c.next)
      | some (.char x length) => andThen [x] (c.skip length)
      | some .gap =>
        let (gap, behind) := c.span isGap
        andThen (joint gap) behind
      | some .joinedLine =>
        let (gap, behind) := (c.skip 2).span isGap
        andThen (gap.filter isBreak) behind

/-- The scalar behind an opening quote. -/
def quoted? (double : Bool) (c : Cursor) : Option (List Char × Cursor) :=
  quotedFrom double (c.rest.length + 1) c

/-! ## Blocks -/

/-- What becomes of the line ends that close a block. -/
inductive Chomping where
  | strip
  | clip
  | keep
  deriving DecidableEq

def chomping? : Char → Option Chomping
  | '-' => some .strip
  | '+' => some .keep
  | _ => none

/-- The digit of a header, zero if there is none; a zero may not be written. -/
def increment? (c : Cursor) : Option (Nat × Cursor) :=
  match c.rest with
  | x :: _ =>
    if x = '0' then none
    else if x.isDigit then some (x.toNat - '0'.toNat, c.next)
    else some (0, c)
  | [] => some (0, c)

/-- The chomping of a header, if it is given. -/
def chomping (c : Cursor) : Chomping × Cursor :=
  match c.rest.head?.bind chomping? with
  | some found => (found, c.next)
  | none => (.clip, c)

/-- The chomping and the digit of a header, in either order. -/
def header? (c : Cursor) : Option ((Chomping × Nat) × Cursor) :=
  if (c.rest.head?.bind chomping?).isSome then
    let (found, c) := chomping c
    (increment? c).map fun digit => ((found, digit.1), digit.2)
  else
    (increment? c).map fun digit =>
      if digit.1 = 0 then ((.clip, 0), digit.2)
      else
        let (found, c) := chomping digit.2
        ((found, digit.1), c)

/--
Reads empty lines up to the first column of content. Without an indentation (`indent` is zero) all
spaces belong to it, and no tab may follow them. Also gives the greatest column seen.
-/
def emptyLines (indent : Nat) : Nat → Nat → Cursor → Option (List Char × Nat × Cursor)
  | 0, _, _ => none
  | fuel + 1, widest, c =>
    let spaces := c.rest.takeWhile (· == ' ')
    let c := c.skip (if indent = 0 then spaces.length else min spaces.length (indent - c.column))
    let widest := max widest c.column
    match c.rest with
    | x :: _ =>
      if x = '\t' ∧ (indent = 0 ∨ c.column < indent) then none
      else if isBreak x then
        (emptyLines indent fuel widest c.next).map fun found => (x :: found.1, found.2)
      else some ([], widest, c)
    | [] => some ([], widest, c)

/-- A block that is being read: its end of line and its empty lines are not yet settled. -/
structure Block where
  text : List Char
  lineEnd : List Char
  empty : List Char
  /-- Whether the last line starts with a blank. -/
  indented : Bool

/-- The text so far, in front of a line that starts with a blank or does not. -/
def Block.joined (b : Block) (isFolded startsBlank : Bool) : List Char :=
  if isFolded && b.lineEnd.head? == some '\n' && !b.indented && !startsBlank then
    b.text ++ (if b.empty.isEmpty then [' '] else []) ++ b.empty
  else b.text ++ b.lineEnd ++ b.empty

/-- Reads lines as long as they start at the indentation. -/
def blockLines (isFolded : Bool) (indent : Nat) : Nat → Block → Cursor → Option (Block × Cursor)
  | 0, _, _ => none
  | fuel + 1, b, c =>
    if c.column ≠ indent ∨ c.rest.isEmpty then some (b, c)
    else
      let startsBlank := c.rest.head?.any isSpace
      let (line, behind) := c.span (!isBreak ·)
      match emptyLines indent (behind.rest.length + 1) 0 behind.next with
      | none => none
      | some (empty, _, after) =>
        let text := b.joined isFolded startsBlank ++ line
        blockLines isFolded indent fuel ⟨text, behind.rest.take 1, empty, startsBlank⟩ after

def Block.chomped (b : Block) : Chomping → List Char
  | .strip => b.text
  | .clip => b.text ++ b.lineEnd
  | .keep => b.text ++ b.lineEnd ++ b.empty

/--
The block behind its mark. `parent` is the least column inside the collection around it; a block
without a given indentation takes that of its first line.
-/
def block? (isFolded : Bool) (parent : Nat) (c : Cursor) : Option (List Char × Cursor) := do
  let ((chomping, increment), c) ← header? c
  let c ← c.skipLine?
  let fuel := c.rest.length + 1
  let given := if increment = 0 then 0 else parent - 1 + increment
  let (empty, widest, c) ← emptyLines given fuel 0 c
  let indent := if increment = 0 then max widest (max parent 1) else given
  let (b, c) ← blockLines isFolded indent fuel ⟨[], [], empty, false⟩ c
  return (b.chomped chomping, c)

end StyleExpand.Yaml
