import StyleExpand.Yaml.Scalar
import StyleExpand.Yaml.Tag

/-!
# Tokens of YAML

Indentation becomes tokens that open and close block collections. Whether a node is a key shows
only at the colon behind it, so a node that may be a key is remembered as a candidate, one for each
level of brackets, and the token that makes it a key is put in front of it afterwards.

* `Token.scan?`: the tokens of a text.
-/

namespace StyleExpand.Yaml

inductive Token where
  | directive (d : Directive)
  | documentStart
  | documentEnd
  | blockSequence
  | blockMapping
  | blockEnd
  | flowSequence
  | flowSequenceEnd
  | flowMapping
  | flowMappingEnd
  | blockEntry
  | flowEntry
  | key
  | value
  | alias (name : List Char)
  | anchor (name : List Char)
  | tag (tag : Tag)
  | scalar (text : List Char) (style : Style)
  deriving DecidableEq

/-- A node that may turn out to be a key: where it starts, and the place of its first token. -/
structure Candidate where
  place : Nat
  line : Nat
  column : Nat
  /-- Whether nothing but a key can stand there. -/
  required : Bool

/-- A text of which some tokens are read. -/
structure Scan where
  cursor : Cursor
  tokens : Array Token
  /-- The columns of the open block collections, the innermost first. -/
  indents : List Nat
  /-- Whether a key may start here. -/
  keyAllowed : Bool
  candidate : Option Candidate
  /-- The candidates outside of each open bracket, the innermost first. -/
  outer : List (Option Candidate)

namespace Scan

def start (cs : List Char) : Scan := ⟨.start cs, #[], [], true, none, []⟩

def inFlow (s : Scan) : Bool := !s.outer.isEmpty

/-- The least column inside the innermost block collection. -/
def inside (s : Scan) : Nat :=
  match s.indents with
  | [] => 0
  | column :: _ => column + 1

def push (s : Scan) (token : Token) : Scan := { s with tokens := s.tokens.push token }

/-- Adds a token and goes on behind it. -/
def emit (s : Scan) (token : Token) (cursor : Cursor) : Scan :=
  { s with tokens := s.tokens.push token, cursor := cursor }

/-! ## Candidates -/

/-- Gives up the candidate of this level. -/
def dropCandidate? (s : Scan) : Option Scan :=
  if s.candidate.any Candidate.required then none else some { s with candidate := none }

/-- Makes the node that starts here a candidate, if a key is allowed. -/
def addCandidate? (s : Scan) : Option Scan :=
  if s.keyAllowed then
    let c := s.cursor
    let required := !s.inFlow && s.indents.head? == some c.column
    s.dropCandidate?.map fun s =>
      { s with candidate := some ⟨s.tokens.size, c.line, c.column, required⟩ }
  else some s

/-- A key ends on the line where it starts, and within 1024 characters. -/
def isStale (s : Scan) (k : Candidate) : Bool :=
  k.line < s.cursor.line || k.column + 1024 < s.cursor.column

/-- Gives up all candidates that cannot be keys any more. -/
def dropStale? (s : Scan) : Option Scan :=
  let stale := (s.candidate :: s.outer).any fun k? => k?.any fun k => s.isStale k && k.required
  if stale then none
  else
    let fresh := fun k? : Option Candidate => k?.filter fun k => !s.isStale k
    some { s with candidate := fresh s.candidate, outer := s.outer.map fresh }

/-! ## Block collections -/

/-- Opens a block collection at a column that is further in, with its token at a place. -/
def indentTo (s : Scan) (column place : Nat) (token : Token) : Scan :=
  if !s.inFlow && s.inside ≤ column then
    { s with indents := column :: s.indents, tokens := s.tokens.insertIdxIfInBounds place token }
  else s

/-- Closes the block collections that are not inside `least`. -/
def closeTo (s : Scan) (least : Nat) : Scan :=
  if s.inFlow then s
  else
    let closed := s.indents.takeWhile (least ≤ ·)
    { s with
      indents := s.indents.drop closed.length
      tokens := s.tokens ++ (Array.replicate closed.length Token.blockEnd) }

/-! ## Readers -/

def directive? (s : Scan) : Option Scan := do
  let s ← (s.closeTo 0).dropCandidate?
  let (found, after) ← Directive.read? s.cursor.next
  return { s with keyAllowed := false }.emit (.directive found) after

/-- Three marks that start or end a document. -/
def documentMark? (s : Scan) (token : Token) : Option Scan :=
  (s.closeTo 0).dropCandidate?.map fun s =>
    { s with keyAllowed := false }.emit token (s.cursor.skip 3)

def openBracket? (s : Scan) (token : Token) : Option Scan :=
  s.addCandidate?.map fun s =>
    { s with candidate := none, outer := s.candidate :: s.outer, keyAllowed := true }.emit token
      s.cursor.next

/-- A closing bracket; the candidate is again the one in front of the opening bracket. -/
def closeBracket? (s : Scan) (token : Token) : Option Scan :=
  s.dropCandidate?.map fun s =>
    let s := match s.outer with
      | [] => s
      | k? :: outer => { s with candidate := k?, outer := outer }
    { s with keyAllowed := false }.emit token s.cursor.next

def comma? (s : Scan) : Option Scan :=
  s.dropCandidate?.map fun s => { s with keyAllowed := true }.emit .flowEntry s.cursor.next

/-- A mark of a block collection: it opens one if it stands further in than the last one. -/
def blockMark? (s : Scan) (collection token : Token) (keyAllowed : Bool) : Option Scan :=
  if s.inFlow || s.keyAllowed then
    (s.indentTo s.cursor.column s.tokens.size collection).dropCandidate?.map fun s =>
      { s with keyAllowed := keyAllowed }.emit token s.cursor.next
  else none

/-- A colon: the candidate becomes a key, or the key was empty or marked. -/
def value? (s : Scan) : Option Scan :=
  match s.candidate with
  | some k =>
    let s := { s with candidate := none, tokens := s.tokens.insertIdxIfInBounds k.place .key }
    let s := s.indentTo k.column k.place .blockMapping
    some ({ s with keyAllowed := false }.emit .value s.cursor.next)
  | none => s.blockMark? .blockMapping .value (!s.inFlow)

/-- The name of an anchor or of an alias, behind its mark. -/
def reference? (s : Scan) (token : List Char → Token) : Option Scan := do
  let s ← s.addCandidate?
  let (name, after) := s.cursor.next.span isNameChar
  let ends := gapOrEnd after.rest ||
    after.rest.head?.any (· ∈ ['?', ':', ',', ']', '\x7d', '%', '@', '\x60'])
  if name.isEmpty || !ends then none
  else return { s with keyAllowed := false }.emit (token name) after

def tag? (s : Scan) : Option Scan := do
  let s ← s.addCandidate?
  let (tag, after) ← Tag.read? s.inFlow s.cursor
  return { s with keyAllowed := false }.emit (.tag tag) after

def block? (s : Scan) (isFolded : Bool) : Option Scan := do
  let s ← s.dropCandidate?
  let (text, after) ← Yaml.block? isFolded s.inside s.cursor.next
  return { s with keyAllowed := true }.emit (.scalar text (if isFolded then .folded else .literal))
    after

def quoted? (s : Scan) (double : Bool) : Option Scan := do
  let s ← s.addCandidate?
  let (text, after) ← Yaml.quoted? double s.cursor.next
  return { s with keyAllowed := false }.emit (.scalar text .quoted) after

def plain? (s : Scan) : Option Scan := do
  let s ← s.addCandidate?
  let found ← Yaml.plain? s.inFlow s.inside s.cursor
  return { s with keyAllowed := found.lineEnded }.emit (.scalar found.text .plain) found.after

/-! ## Scanning -/

/-- Goes on to the next token. Where a key may start, a tab is no indentation. -/
def skipGap : Nat → Scan → Scan
  | 0, s => s
  | fuel + 1, s =>
    let c := s.cursor
    let c := if c.column == 0 && c.rest.head? == some '\ufeff' then c.next else c
    let tabs := s.inFlow || !s.keyAllowed
    let c := c.skipWhile fun x => x == ' ' || (tabs && x == '\t')
    let c := if c.rest.head? == some '#' then c.skipWhile (!isBreak ·) else c
    if c.rest.head?.any isBreak then
      skipGap fuel { s with cursor := c.next, keyAllowed := s.keyAllowed || !s.inFlow }
    else { s with cursor := c }

/-- Reads the token that starts with a character, and with `after` behind it. -/
def token? (s : Scan) (x : Char) (after : List Char) : Option Scan :=
  let spaced := gapOrEnd after
  if s.cursor.column == 0 && x == '%' then s.directive?
  else if s.cursor.atMarks '-' then s.documentMark? .documentStart
  else if s.cursor.atMarks '.' then s.documentMark? .documentEnd
  else if isGap x then none
  else
    match x with
    | '[' => s.openBracket? .flowSequence
    | '{' => s.openBracket? .flowMapping
    | ']' => s.closeBracket? .flowSequenceEnd
    | '}' => s.closeBracket? .flowMappingEnd
    | ',' => s.comma?
    | '-' => if spaced then s.blockMark? .blockSequence .blockEntry true else s.plain?
    | '?' =>
      if s.inFlow || spaced then s.blockMark? .blockMapping .key (!s.inFlow) else s.plain?
    | ':' => if s.inFlow || spaced then s.value? else s.plain?
    | '*' => s.reference? .alias
    | '&' => s.reference? .anchor
    | '!' => s.tag?
    | '|' => if s.inFlow then none else s.block? false
    | '>' => if s.inFlow then none else s.block? true
    | '\'' => s.quoted? false
    | '"' => s.quoted? true
    | '%' => none
    | '@' => none
    | '\x60' => none
    | _ => s.plain?

/-- Reads token after token. The end of the text closes all block collections. -/
def all? : Nat → Scan → Option (Array Token)
  | 0, _ => none
  | fuel + 1, s =>
    match (skipGap (s.cursor.rest.length + 1) s).dropStale? with
    | none => none
    | some s =>
      let s := s.closeTo (s.cursor.column + 1)
      match s.cursor.rest with
      | [] => ((s.closeTo 0).dropCandidate?).map Scan.tokens
      | x :: after =>
        match s.token? x after with
        | some s => all? fuel s
        | none => none

end Scan

/-- The tokens of a text. Every token takes a character at the least. -/
def Token.scan? (cs : List Char) : Option (List Token) :=
  if cs.all allowed.holds then
    (Scan.all? (cs.length + 1) (.start (normalize cs))).map Array.toList
  else none

end StyleExpand.Yaml
