import StyleExpand.Number.Shortest
import StyleExpand.Text.Blank

/-!
# Numbers and comparisons in texts

Values are texts; a number is read from one where a loop bound or a comparison needs it.

* `numberOf?`: the number that makes up a trimmed text, with `Infinity` as a word;
* `boundOf`: the number of a loop bound, zero for a blank text and `nan` for any other text;
* `Comparison.holds`: the six comparisons between numbers and texts.
-/

namespace StyleExpand

def infinityWord : List Char := "Infinity".toList

/-- The text of a number as a value. -/
def Double.text (x : Double) : String := String.ofList (x.write infinityWord)

/-! ## Reading numbers -/

/-- The characters that numerals are made of. -/
def isNumeralChar (c : Char) : Bool :=
  c.isDigit || c == '+' || c == '-' || c == '.' || c == 'e' || c == 'E'

/--
The number that makes up a text, blanks around it apart. Any row of signs may stand before the word
for infinity, and the first one counts.
-/
def numberOf? (cs : List Char) : Option Double :=
  let trimmed := Text.trim cs
  if trimmed.dropWhile (fun c => c == '+' || c == '-') == infinityWord then
    some (.infinite (trimmed.head? == some '-'))
  else if trimmed.all isNumeralChar then
    (Decimal.read? trimmed).map Decimal.toDouble
  else none

/-- The number of a loop bound: a blank text is zero, and a text that is no number is `nan`. -/
def boundOf (cs : List Char) : Double :=
  if (Text.trim cs).isEmpty then .zero else (numberOf? cs).getD .nan

/-! ## Operands -/

/-- One side of a comparison. -/
inductive Operand where
  | number (value : Double)
  | text (value : String)
  deriving DecidableEq

/-- A text that is a number all through counts as that number. -/
def Operand.ofText (s : String) : Operand :=
  match numberOf? s.toList with
  | some x => .number x
  | none => .text s

/-- The order of two operands: a text beside a number counts as a loop bound would. -/
def Operand.compare? : Operand → Operand → Option Ordering
  | .number a, .number b => a.compare? b
  | .text a, .text b => some (compare a b)
  | .number a, .text b => a.compare? (boundOf b.toList)
  | .text a, .number b => (boundOf a.toList).compare? b

/-- Whether both operands are numbers or both are texts. -/
def Operand.sameKind : Operand → Operand → Bool
  | .number _, .number _ => true
  | .text _, .text _ => true
  | _, _ => false

/-! ## Comparisons -/

inductive Comparison where
  | equal
  | notEqual
  | less
  | lessOrEqual
  | greater
  | greaterOrEqual
  deriving DecidableEq

namespace Comparison

def ofText? : String → Option Comparison
  | "==" => some .equal
  | "!=" => some .notEqual
  | "<" => some .less
  | "<=" => some .lessOrEqual
  | ">" => some .greater
  | ">=" => some .greaterOrEqual
  | _ => none

/-- Which orders satisfy a comparison; where there is none, operands differ and nothing else holds. -/
def accepts : Comparison → Option Ordering → Bool
  | .equal, order => order == some .eq
  | .notEqual, order => order != some .eq
  | .less, order => order == some .lt
  | .lessOrEqual, order => order == some .lt || order == some .eq
  | .greater, order => order == some .gt
  | .greaterOrEqual, order => order == some .gt || order == some .eq

/-- Whether a comparison holds; a number and a text are never equal. -/
def holds (c : Comparison) (left right : Operand) : Bool :=
  match c with
  | .equal => left.sameKind right && c.accepts (left.compare? right)
  | .notEqual => !left.sameKind right || c.accepts (left.compare? right)
  | c => c.accepts (left.compare? right)

end Comparison

end StyleExpand
