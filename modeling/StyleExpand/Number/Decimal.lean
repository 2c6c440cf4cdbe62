import StyleExpand.Number.Double

/-!
# Decimal numerals

* `Decimal.read?`: the numerals `-12`, `1.`, `.5`, `2e+3`, with at least one digit before the
  exponent;
* `Decimal.toDouble`: the double nearest to a numeral.
-/

namespace StyleExpand

/-- The number `± significand * 10 ^ exponent`. -/
structure Decimal where
  negative : Bool
  significand : Nat
  exponent : Int
  deriving DecidableEq

namespace Decimal

/-! ## Reading -/

/-- The digits at the start of a text, and what follows them. -/
def digits (cs : List Char) : List Char × List Char := cs.span Char.isDigit

def valueOf (cs : List Char) : Nat := Nat.ofDigitChars 10 cs 0

/-- Whether a text starts with a minus, and what follows a sign. -/
def sign : List Char → Bool × List Char
  | '-' :: cs => (true, cs)
  | '+' :: cs => (false, cs)
  | cs => (false, cs)

/-- The exponent that makes up a whole text: none at all, or a mark, a sign and digits. -/
def exponent? : List Char → Option Int
  | [] => some 0
  | c :: cs =>
    if c == 'e' || c == 'E' then
      match sign cs with
      | (negative, rest) =>
        if rest.isEmpty || !rest.all Char.isDigit then none
        else some (Double.signed negative (valueOf rest))
    else none

/-- The digits after a point, if there is one, and what follows them. -/
def fraction : List Char → List Char × List Char
  | '.' :: cs => digits cs
  | cs => ([], cs)

/-- The numeral that makes up a whole text. -/
def read? (cs : List Char) : Option Decimal :=
  let (negative, unsigned) := sign cs
  let (whole, afterWhole) := digits unsigned
  let (part, afterPart) := fraction afterWhole
  if whole.isEmpty && part.isEmpty then none
  else
    (exponent? afterPart).map fun exponent =>
      ⟨negative, valueOf (whole ++ part), exponent - part.length⟩

/-! ## The nearest double -/

/-- The number of decimal digits of a number, at least one. -/
def width (n : Nat) : Nat := (Nat.toDigits 10 n).length

/--
The double nearest to a numeral. From `10 ^ 309` on there is no finite double, and below
`10 ^ (-325)` zero is the nearest; the tests spare the powers of ten that no double can hold.
-/
def toDouble (d : Decimal) : Double :=
  if d.significand = 0 then .finite d.negative 0
  else if 309 ≤ d.exponent then .infinite d.negative
  else if d.exponent + width d.significand ≤ -325 then .finite d.negative 0
  else
    .round d.negative (d.significand * Nat.pow 10 d.exponent.toNat * Double.unitsPerOne)
      (Nat.pow 10 (-d.exponent).toNat)

end Decimal

end StyleExpand
