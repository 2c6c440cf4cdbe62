import StyleExpand.Sheet.Entry
import StyleExpand.Text.Blank
import StyleExpand.Text.Word

/-!
# Tokens of a source

A source is a row of statements. Where one of them ends does not hang on the blocks around it, so a
source is first cut into tokens: a statement that opens a block, the end of a block, and a statement
that stands alone.

* `Scan.statement`: a text up to the brace or semicolon that ends it;
* `Lexeme.read`: the token at a place, with the text it takes up;
* `Token.scan`: all tokens with their positions, and how the source ends.
-/

namespace StyleExpand

/-! ## Errors -/

/-- Why a source cannot be read. -/
inductive Fault where
  | unclosedBlock
  | unexpectedClose
  | unterminatedComment
  | missingColon (statement : String)
  deriving DecidableEq

def Fault.message : Fault → String
  | .unclosedBlock => "Unclosed block"
  | .unexpectedClose => "Unexpected '\x7d'"
  | .unterminatedComment => "Unterminated comment"
  | .missingColon statement => "Expected ':' in declaration '" ++ statement ++ "'"

structure ParseError where
  position : Position
  fault : Fault
  deriving DecidableEq

def ParseError.message (e : ParseError) : String :=
  "Parse error at " ++ e.position.text ++ ": " ++ e.fault.message

/-! ## Statements -/

/-- What is open at a place of a statement. -/
structure Scan where
  parens : Nat
  holes : Nat
  quote : Option Char
  escaped : Bool
  hash : Bool
  deriving DecidableEq

namespace Scan

def start : Scan := ⟨0, 0, none, false, false⟩

/--
The scan after one more character. A hash and a brace open a hole, which the next closing brace
closes; nothing counts after a backslash, and in quotes only their end.
-/
def step (s : Scan) (c : Char) : Scan :=
  if s.escaped then { s with escaped := false }
  else if c = '\\' then { s with escaped := true, hash := false }
  else
    match s.quote with
    | some q => if c = q then { s with quote := none } else s
    | none =>
      let plain := { s with hash := false }
      if c = '"' ∨ c = '\'' then { plain with quote := some c }
      else if c = '#' then { s with hash := true }
      else if c = '{' ∧ s.hash then { plain with holes := s.holes + 1 }
      else if c = '}' then { plain with holes := s.holes - 1 }
      else if c = '(' then { plain with parens := s.parens + 1 }
      else if c = ')' then { plain with parens := s.parens - 1 }
      else plain

/-- Whether a character ends a statement here. -/
def ends (s : Scan) (c : Char) : Bool :=
  s.parens == 0 && s.holes == 0 && s.quote.isNone && !s.escaped &&
    (c == ';' || c == '}' || (c == '{' && !s.hash))

/-- A statement and what follows it, from the character on that ends it. -/
def statement : Scan → List Char → List Char × List Char
  | _, [] => ([], [])
  | s, c :: cs =>
    if s.ends c then ([], c :: cs)
    else
      let (text, rest) := statement (s.step c) cs
      (c :: text, rest)

theorem statement_append : ∀ (s : Scan) (cs : List Char),
    (s.statement cs).1 ++ (s.statement cs).2 = cs
  | _, [] => rfl
  | s, c :: cs => by
    rw [statement]
    split
    · rfl
    · rw [List.cons_append, statement_append (s.step c) cs]

end Scan

/-! ## Declarations -/

/-- The two sides of the first colon that is in no hole and no parentheses. -/
def cutAtColon (depth : Nat) (hash : Bool) : List Char → Option (List Char × List Char)
  | [] => none
  | c :: cs =>
    let further (depth : Nat) (hash : Bool) :=
      (cutAtColon depth hash cs).map fun sides => (c :: sides.1, sides.2)
    if c = '#' then further depth true
    else if c = '{' ∧ hash then further (depth + 1) false
    else if c = '(' then further (depth + 1) false
    else if c = '}' ∨ c = ')' then further (depth - 1) false
    else if c = ':' ∧ depth = 0 then some ([], cs)
    else further depth false

def trimText (cs : List Char) : String := String.ofList (Text.trim cs)

/-- The declaration that a statement holds. -/
def declaration? (statement : List Char) : Option Content :=
  (cutAtColon 0 false statement).map fun sides =>
    .declaration (trimText sides.1) (trimText sides.2)

/-! ## Lexemes -/

/-- A statement that opens a block, the end of a block, or a statement on its own. -/
inductive Token where
  | opening (content : Content)
  | closing
  | leaf (content : Content)
  deriving DecidableEq

/-- A token, the text that it takes up, and the source that follows. -/
structure Lexeme where
  token : Option Token
  text : List Char
  rest : List Char

namespace Lexeme

/-- How the name of an at-rule goes on. -/
def isAtNameChar (c : Char) : Bool := Text.isLetterOrNumeral c || c == '-' || c == '_'

/-- The at-rule after its `@`; it has a block if a brace ends it. -/
def atRule (cs : List Char) : Lexeme :=
  let name := cs.takeWhile isAtNameChar
  let (params, rest) := Scan.start.statement (cs.dropWhile isAtNameChar)
  let content := Content.atRule (String.ofList name) (trimText params)
  match rest with
  | '{' :: after => ⟨some (.opening (content true)), '@' :: (name ++ params ++ ['{']), after⟩
  | ';' :: after => ⟨some (.leaf (content false)), '@' :: (name ++ params ++ [';']), after⟩
  | _ => ⟨some (.leaf (content false)), '@' :: (name ++ params), rest⟩

/-- The rule or declaration at the start of a source. -/
def ruleOrDeclaration (cs : List Char) : Except Fault Lexeme :=
  let (text, rest) := Scan.start.statement cs
  match rest with
  | '{' :: after => .ok ⟨some (.opening (.rule (trimText text))), text ++ ['{'], after⟩
  | _ =>
    match declaration? text with
    | none => .error (.missingColon (trimText text))
    | some content =>
      match rest with
      | ';' :: after => .ok ⟨some (.leaf content), text ++ [';'], after⟩
      | _ => .ok ⟨some (.leaf content), text, rest⟩

/-- The token at the start of a source that does not start with a blank; a semicolon alone is none. -/
def read : List Char → Except Fault Lexeme
  | '}' :: cs => .ok ⟨some .closing, ['}'], cs⟩
  | ';' :: cs => .ok ⟨none, [';'], cs⟩
  | '/' :: '*' :: cs =>
    match Text.cutOnce ['*', '/'] cs with
    | none => .error .unterminatedComment
    | some (text, rest) =>
      .ok ⟨some (.leaf (.comment (String.ofList text))), '/' :: '*' :: (text ++ ['*', '/']), rest⟩
  | '@' :: cs => .ok (atRule cs)
  | cs => ruleOrDeclaration cs

/-! ### No text is lost -/

theorem atRule_append (cs : List Char) : (atRule cs).text ++ (atRule cs).rest = '@' :: cs := by
  have hname := List.takeWhile_append_dropWhile (p := isAtNameChar) (l := cs)
  have hparams := Scan.statement_append .start (cs.dropWhile isAtNameChar)
  unfold atRule
  simp only
  split
  all_goals rename_i h
  · simp only [List.cons_append, List.append_assoc, List.nil_append]
    rw [← h, hparams, hname]
  · simp only [List.cons_append, List.append_assoc, List.nil_append]
    rw [← h, hparams, hname]
  · rw [List.cons_append, List.append_assoc, hparams, hname]

theorem atRule_text_ne_nil (cs : List Char) : (atRule cs).text ≠ [] := by
  unfold atRule
  simp only
  split <;> simp

theorem ruleOrDeclaration_append {cs : List Char} {l : Lexeme} (h : ruleOrDeclaration cs = .ok l) :
    l.text ++ l.rest = cs := by
  have hcs := Scan.statement_append .start cs
  unfold ruleOrDeclaration at h
  simp only at h
  split at h
  · rename_i hrest
    obtain rfl := Except.ok.inj h
    rw [List.append_assoc, List.singleton_append, ← hrest, hcs]
  · split at h
    · simp at h
    · split at h
      · rename_i hrest
        obtain rfl := Except.ok.inj h
        rw [List.append_assoc, List.singleton_append, ← hrest, hcs]
      · obtain rfl := Except.ok.inj h
        exact hcs

theorem ruleOrDeclaration_text_ne_nil {cs : List Char} {l : Lexeme}
    (h : ruleOrDeclaration cs = .ok l) : l.text ≠ [] := by
  unfold ruleOrDeclaration at h
  simp only at h
  split at h
  · obtain rfl := Except.ok.inj h
    simp
  · split at h
    · simp at h
    · rename_i hdecl
      have hne : (Scan.start.statement cs).1 ≠ [] := by
        intro hnil
        rw [hnil] at hdecl
        simp [declaration?, cutAtColon] at hdecl
      split at h
      · obtain rfl := Except.ok.inj h
        simp
      · obtain rfl := Except.ok.inj h
        exact hne

/-- A lexeme and what follows it make up the source. -/
theorem read_append {cs : List Char} {l : Lexeme} (h : read cs = .ok l) : l.text ++ l.rest = cs := by
  unfold read at h
  split at h
  · obtain rfl := Except.ok.inj h
    rfl
  · obtain rfl := Except.ok.inj h
    rfl
  · split at h
    · simp at h
    · rename_i hcut
      obtain rfl := Except.ok.inj h
      rw [Text.append_of_cutOnce hcut]
      simp
  · obtain rfl := Except.ok.inj h
    exact atRule_append _
  · exact ruleOrDeclaration_append h

theorem read_text_ne_nil {cs : List Char} {l : Lexeme} (h : read cs = .ok l) : l.text ≠ [] := by
  unfold read at h
  split at h
  · obtain rfl := Except.ok.inj h
    simp
  · obtain rfl := Except.ok.inj h
    simp
  · split at h
    · simp at h
    · obtain rfl := Except.ok.inj h
      simp
  · obtain rfl := Except.ok.inj h
    exact atRule_text_ne_nil _
  · exact ruleOrDeclaration_text_ne_nil h

theorem length_rest_lt {cs : List Char} {l : Lexeme} (h : read cs = .ok l) :
    l.rest.length < cs.length := by
  have hpos := List.length_pos_iff.2 (read_text_ne_nil h)
  rw [← read_append h, List.length_append]
  omega

end Lexeme

/-! ## A whole source -/

/-- A token and the place where it starts. -/
structure Located where
  position : Position
  token : Token
  deriving DecidableEq

/-- How the tokens of a source end: at its end, or at a text that is no token. -/
inductive Ending where
  | finished (position : Position)
  | failed (error : ParseError)
  deriving DecidableEq

/-- The tokens of a source from a position on. -/
def Token.scan (p : Position) (cs : List Char) : List Located × Ending :=
  let here := p.advance (cs.takeWhile Text.isBlank)
  match hrest : cs.dropWhile Text.isBlank with
  | [] => ([], .finished here)
  | c :: rest =>
    match hread : Lexeme.read (c :: rest) with
    | .error fault => ([], .failed ⟨here, fault⟩)
    | .ok lexeme =>
      have : lexeme.rest.length < cs.length := by
        have h := (List.dropWhile_suffix (l := cs) Text.isBlank).length_le
        have := Lexeme.length_rest_lt hread
        rw [hrest] at h
        omega
      let (tokens, ending) := Token.scan (here.advance lexeme.text) lexeme.rest
      match lexeme.token with
      | some token => (⟨here, token⟩ :: tokens, ending)
      | none => (tokens, ending)
termination_by cs.length

end StyleExpand
