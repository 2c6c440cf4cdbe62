import StyleExpand.Text.Blank
import StyleExpand.Text.Hex

/-!
# JSON documents

`JsonValue.read?` reads the one value that a text holds. Strings keep the code units of their
escapes and numbers their digits, so that what a value means, and whether it means anything, is
decided where it is used.
-/

namespace StyleExpand

/-- A part of a string: a character, or a code unit given by an escape. -/
inductive JsonUnit where
  | char (c : Char)
  | code (n : Nat)
  deriving DecidableEq

/-- A number as it is written; the exponent has a sign and digits. -/
structure JsonNumber where
  negative : Bool
  whole : List Char
  fraction : List Char
  exponent : Option (Bool × List Char)
  deriving DecidableEq

inductive JsonValue where
  | null
  | bool (value : Bool)
  | number (value : JsonNumber)
  | string (units : List JsonUnit)
  | array (items : List JsonValue)
  | object (members : List (List JsonUnit × JsonValue))

/-! ## Strings -/

namespace JsonUnit

/-- The character of an escape by one letter. -/
def ofLetter? : Char → Option Char
  | '"' => some '"'
  | '\\' => some '\\'
  | '/' => some '/'
  | 'b' => some '\x08'
  | 'f' => some '\x0c'
  | 'n' => some '\n'
  | 'r' => some '\r'
  | 't' => some '\t'
  | _ => none

/-- The units up to the closing quote, and what follows it. Control characters are not allowed. -/
def readAll : List Char → Option (List JsonUnit × List Char)
  | [] => none
  | '"' :: rest => some ([], rest)
  | '\\' :: 'u' :: a :: b :: c :: d :: rest =>
    match Text.hexValue? [a, b, c, d] with
    | some n => (readAll rest).map fun found => (.code n :: found.1, found.2)
    | none => none
  | '\\' :: letter :: rest =>
    match ofLetter? letter with
    | some c => (readAll rest).map fun found => (.char c :: found.1, found.2)
    | none => none
  | c :: rest =>
    if c.toNat < 0x20 ∨ c = '\\' then none
    else (readAll rest).map fun found => (.char c :: found.1, found.2)

def isLeading (n : Nat) : Bool := 0xD800 ≤ n && n ≤ 0xDBFF

def isTrailing (n : Nat) : Bool := 0xDC00 ≤ n && n ≤ 0xDFFF

/-- The text of a string: surrogates have to come in pairs. -/
def text? : List JsonUnit → Option (List Char)
  | [] => some []
  | .char c :: rest => (text? rest).map (c :: ·)
  | .code hi :: .code lo :: rest =>
    if isLeading hi then
      if isTrailing lo then
        (text? rest).map (Char.ofNat (0x10000 + (hi - 0xD800) * 0x400 + (lo - 0xDC00)) :: ·)
      else none
    else if isTrailing hi then none
    else (text? (.code lo :: rest)).map (Char.ofNat hi :: ·)
  | .code n :: rest =>
    if isLeading n || isTrailing n then none else (text? rest).map (Char.ofNat n :: ·)

end JsonUnit

/-! ## Numbers -/

namespace JsonNumber

/-- A point and at least one digit, or nothing. -/
def fraction? : List Char → Option (List Char × List Char)
  | '.' :: cs =>
    let (digits, rest) := cs.span Char.isDigit
    if digits.isEmpty then none else some (digits, rest)
  | cs => some ([], cs)

/-- A mark, a sign and at least one digit, or nothing. -/
def exponent? (cs : List Char) : Option (Option (Bool × List Char) × List Char) :=
  match cs with
  | c :: rest =>
    if c = 'e' ∨ c = 'E' then
      let (negative, rest) := match rest with
        | '-' :: rest => (true, rest)
        | '+' :: rest => (false, rest)
        | rest => (false, rest)
      let (digits, rest) := rest.span Char.isDigit
      if digits.isEmpty then none else some (some (negative, digits), rest)
    else some (none, cs)
  | [] => some (none, [])

/-- The number at the start of a text; zero is the only first digit that stands alone. -/
def read? (cs : List Char) : Option (JsonNumber × List Char) :=
  let (negative, unsigned) := match cs with
    | '-' :: rest => (true, rest)
    | cs => (false, cs)
  let (whole, rest) := unsigned.span Char.isDigit
  if whole.isEmpty || (whole.head? == some '0' && 1 < whole.length) then none
  else
    match fraction? rest with
    | none => none
    | some (fraction, rest) =>
      (exponent? rest).map fun found => (⟨negative, whole, fraction, found.1⟩, found.2)

end JsonNumber

/-! ## Values -/

namespace JsonValue

def isSpace (c : Char) : Bool := c == ' ' || c == '\n' || c == '\t' || c == '\r'

def skipSpace (cs : List Char) : List Char := cs.dropWhile isSpace

mutual

/-- A value and what follows it. -/
def value : Nat → List Char → Option (JsonValue × List Char)
  | 0, _ => none
  | fuel + 1, cs =>
    match skipSpace cs with
    | [] => none
    | '"' :: rest => (JsonUnit.readAll rest).map fun found => (.string found.1, found.2)
    | '[' :: rest =>
      match skipSpace rest with
      | ']' :: rest => some (.array [], rest)
      | rest => (elements fuel rest).map fun found => (.array found.1, found.2)
    | '{' :: rest =>
      match skipSpace rest with
      | '}' :: rest => some (.object [], rest)
      | rest => (members fuel rest).map fun found => (.object found.1, found.2)
    | cs =>
      if let some rest := Text.afterStart "null".toList cs then some (.null, rest)
      else if let some rest := Text.afterStart "true".toList cs then some (.bool true, rest)
      else if let some rest := Text.afterStart "false".toList cs then some (.bool false, rest)
      else (JsonNumber.read? cs).map fun found => (.number found.1, found.2)

/-- The values of an array up to its closing bracket. -/
def elements : Nat → List Char → Option (List JsonValue × List Char)
  | 0, _ => none
  | fuel + 1, cs =>
    match value fuel cs with
    | none => none
    | some (item, rest) =>
      match skipSpace rest with
      | ',' :: rest => (elements fuel rest).map fun found => (item :: found.1, found.2)
      | ']' :: rest => some ([item], rest)
      | _ => none

/-- The members of an object up to its closing brace. -/
def members : Nat → List Char → Option (List (List JsonUnit × JsonValue) × List Char)
  | 0, _ => none
  | fuel + 1, cs =>
    match skipSpace cs with
    | '"' :: rest =>
      match JsonUnit.readAll rest with
      | none => none
      | some (key, rest) =>
        match skipSpace rest with
        | ':' :: rest =>
          match value fuel rest with
          | none => none
          | some (item, rest) =>
            match skipSpace rest with
            | ',' :: rest =>
              (members fuel rest).map fun found => ((key, item) :: found.1, found.2)
            | '}' :: rest => some ([(key, item)], rest)
            | _ => none
        | _ => none
    | _ => none

end

/-- The one value that a text holds. Every step takes a character at the least. -/
def read? (cs : List Char) : Option JsonValue :=
  match value (2 * cs.length + 2) cs with
  | some (found, rest) => if (skipSpace rest).isEmpty then some found else none
  | none => none

end JsonValue

end StyleExpand
