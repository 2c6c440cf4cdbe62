import StyleExpand.Text.Ranges

/-!
# Characters and places in a YAML text

* `Yaml.normalize`: one character for each end of a line;
* `Yaml.Cursor`: what is left of a text, and the line and column where it starts.
-/

namespace StyleExpand.Yaml

/-! ## Characters -/

/-- The characters that a text may hold. -/
def allowed : Text.Ranges :=
  [(0x9, 0xA), (0xD, 0xD), (0x20, 0x7E), (0x85, 0x85), (0xA0, 0xD7FF), (0xE000, 0xFFFD),
    (0x10000, 0x10FFFF)]

/-- Writes every end of a line as a line feed; line and paragraph separators stay. -/
def normalize : List Char → List Char
  | '\r' :: '\n' :: cs => '\n' :: normalize cs
  | c :: cs => (if c = '\r' ∨ c = '\u0085' then '\n' else c) :: normalize cs
  | [] => []

def isSpace (c : Char) : Bool := c == ' ' || c == '\t'

/-- The ends of lines in a normalized text. -/
def isBreak (c : Char) : Bool := c == '\n' || c == '\u2028' || c == '\u2029'

def isGap (c : Char) : Bool := isSpace c || isBreak c

/-- The characters of anchors, of handles and of the names of directives. -/
def isNameChar (c : Char) : Bool := c.isAlphanum || c == '_' || c == '-'

/-- Whether a text ends here or goes on with a gap. -/
def gapOrEnd (cs : List Char) : Bool := cs.head?.all isGap

/-- Whether a line ends here. -/
def lineEnds (cs : List Char) : Bool := cs.head?.all isBreak

/-! ## Cursors -/

/-- What is left of a text, from a line and a column on, both counted from zero. -/
structure Cursor where
  rest : List Char
  line : Nat
  column : Nat

namespace Cursor

def start (cs : List Char) : Cursor := ⟨cs, 0, 0⟩

/-- One character further. -/
def next (c : Cursor) : Cursor :=
  match c.rest with
  | [] => c
  | x :: rest => if isBreak x then ⟨rest, c.line + 1, 0⟩ else ⟨rest, c.line, c.column + 1⟩

/-- Several characters further. -/
def skip (c : Cursor) : Nat → Cursor
  | 0 => c
  | n + 1 => c.next.skip n

/-- The longest run of characters of a kind, and the place behind it. -/
def span (c : Cursor) (p : Char → Bool) : List Char × Cursor :=
  let run := c.rest.takeWhile p
  (run, c.skip run.length)

def skipWhile (c : Cursor) (p : Char → Bool) : Cursor := (c.span p).2

/-- Whether a text of three equal marks stands alone at the start of the line. -/
def atMarks (c : Cursor) (mark : Char) : Bool :=
  c.column == 0 && c.rest.take 3 == [mark, mark, mark] && gapOrEnd (c.rest.drop 3)

/-- Whether a document starts or ends here. -/
def atDocumentMark (c : Cursor) : Bool := c.atMarks '-' || c.atMarks '.'

/-- Behind blanks and a comment, and behind the line they end; none if anything else is on it. -/
def skipLine? (c : Cursor) : Option Cursor :=
  let c := c.skipWhile isSpace
  let c := if c.rest.head? == some '#' then c.skipWhile (!isBreak ·) else c
  if lineEnds c.rest then some c.next else none

end Cursor

end StyleExpand.Yaml
