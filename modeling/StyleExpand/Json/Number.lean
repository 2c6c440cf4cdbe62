import StyleExpand.Json.Document
import StyleExpand.Number.Amount
import StyleExpand.Number.Decimal

/-!
# The value of a JSON number

A number without a point and without an exponent is an integer while it fits. Any other number is
the double that a fixed way of reading gives: its first digits, as many as fit into 64 bits, times
or over a power of ten, with a rounding after each of the steps. The result may be a neighbour of
the nearest double.
-/

namespace StyleExpand

namespace JsonNumber

/-- The greatest integer of 64 bits. -/
def maxSignificand : Nat := Nat.pow 2 64 - 1

/-- Digits taken up into a significand as long as they fit, and those that do not. -/
def takeDigits (significand : Nat) : List Char → Nat × List Char
  | [] => (significand, [])
  | c :: cs =>
    let longer := 10 * significand + (c.toNat - '0'.toNat)
    if maxSignificand < longer then (significand, c :: cs) else takeDigits longer cs

def powerOfTen (n : Nat) : Double := .ofNat false (Nat.pow 10 n)

/-- A division by `10 ^ n`, in steps of the greatest power that a double holds. -/
def divideByTens (x : Double) (n : Nat) : Double :=
  if n ≤ 308 then x.div (powerOfTen n)
  else if x.isZero then x
  else divideByTens (x.div (powerOfTen 308)) (n - 308)
termination_by n

/-- A significand times a power of ten; none if that is too great for a double. -/
def scale? (significand : Nat) (exponent : Int) : Option Double :=
  let x := Double.ofNat false significand
  if exponent < 0 then some (divideByTens x exponent.natAbs)
  else if exponent ≤ 308 then
    let y := x.mul (powerOfTen exponent.natAbs)
    if y.isFinite then some y else none
  else if x.isZero then some x
  else none

/-- The greatest exponent that is worked out. -/
def maxExponent : Nat := Nat.pow 2 31 - 1

/-- The double of a number, its sign apart. -/
def magnitude? (n : JsonNumber) : Option Double :=
  let (significand, restOfWhole) := takeDigits 0 n.whole
  let (longer, restOfFraction) := takeDigits significand n.fraction
  let taken := n.fraction.length - restOfFraction.length
  let shift : Int := restOfWhole.length - taken
  match n.exponent with
  | none => scale? longer shift
  | some (negative, digits) =>
    let exponent := Decimal.valueOf digits
    if maxExponent < exponent then
      if longer ≠ 0 ∧ negative = false then none else some .zero
    else scale? longer (shift + Double.signed negative exponent)

/-- The value of a number; a negative zero is a double. -/
def amount? (n : JsonNumber) : Option Amount :=
  let (significand, restOfWhole) := takeDigits 0 n.whole
  if n.fraction.isEmpty && n.exponent.isNone && restOfWhole.isEmpty then
    if n.negative && significand = 0 then some (.double (.ofNat true 0))
    else some (.ofInt (Double.signed n.negative significand))
  else
    n.magnitude?.map fun x => .double (if n.negative then x.neg else x)

end JsonNumber

end StyleExpand
