import StyleExpand.Number.Decimal

/-!
# The shortest numeral of a double

A double stands for every number that rounds to it. `Shortest.find` looks for a numeral among them
on the grids of one digit, two digits and so on: the first grid with a hit wins, and of two hits the
nearer one, the upper one in a tie. `Double.write` writes it positionally.
-/

namespace StyleExpand

namespace Shortest

/-- The count of digits before the point of `units`, negative for zeros after it. -/
def magnitude (units : Nat) : Int :=
  (Decimal.width (units * Nat.pow 10 324 / Double.unitsPerOne) : Int) - 324

/-- A grid of numerals: the multiples of `10 ^ exponent`. -/
structure Grid where
  exponent : Int

namespace Grid

/-- What one unit counts, in a measure in which both units and grid points are whole. -/
def scale (g : Grid) : Nat := Nat.pow 10 (-g.exponent).toNat

/-- What one step of the grid counts in that measure. -/
def step (g : Grid) : Nat := Double.unitsPerOne * Nat.pow 10 g.exponent.toNat

end Grid

/-- The distance to the next lower double: half the spacing below a power of two. -/
def gapBelow (units : Nat) : Nat :=
  let step := Double.spacing units
  if units = Nat.pow 2 52 * step ∧ 1 < step then step / 2 else step

/-- Whether a grid point rounds to the double of `units`; both ends count for an even double. -/
def hits (units : Nat) (g : Grid) (point : Nat) : Bool :=
  let step := Double.spacing units
  let twice := 2 * point * g.step
  let low := (2 * units - gapBelow units) * g.scale
  let high := (2 * units + step) * g.scale
  if units / step % 2 = 0 then low ≤ twice && twice ≤ high else low < twice && twice < high

/-- The point of a grid next to the double of `units` that rounds to it. -/
def onGrid? (units : Nat) (g : Grid) : Option Nat :=
  let value := units * g.scale
  let below := value / g.step
  let rest := value % g.step
  match hits units g below, hits units g (below + 1) with
  | true, true => some (if 2 * rest < g.step then below else below + 1)
  | true, false => some below
  | false, true => some (below + 1)
  | false, false => none

/-- The first hit on the grids with `digits`, `digits + 1`, … digits. -/
def search (units : Nat) (magnitude : Int) : Nat → Nat → Option (Nat × Int)
  | 0, _ => none
  | tries + 1, digits =>
    let exponent := magnitude - digits
    match onGrid? units ⟨exponent⟩ with
    | some point => some (point, exponent)
    | none => search units magnitude tries (digits + 1)

/-- The shortest numeral that rounds to the double of `units`; seventeen digits always suffice. -/
def find (units : Nat) : Nat × Int := (search units (magnitude units) 17 1).getD (units, -1074)

/-- A whole number followed by zeros, or split by a point with no zero at the end. -/
def positional (point : Nat) (exponent : Int) : List Char :=
  if 0 ≤ exponent then Nat.toDigits 10 point ++ List.replicate exponent.toNat '0'
  else
    let places := (-exponent).toNat
    let digits := Nat.toDigits 10 point
    let padded := List.replicate (places + 1 - digits.length) '0' ++ digits
    let whole := padded.take (padded.length - places)
    let part := ((padded.drop (padded.length - places)).reverse.dropWhile (· == '0')).reverse
    if part.isEmpty then whole else whole ++ '.' :: part

end Shortest

/--
A double in positional notation with the fewest digits that read back, with a word of the caller's
choice for the infinities. Both zeros are `0`.
-/
def Double.write (infinity : List Char) : Double → List Char
  | .nan => "NaN".toList
  | .infinite negative => minus negative infinity
  | .finite negative units =>
    if units = 0 then ['0']
    else
      let (point, exponent) := Shortest.find units
      minus negative (Shortest.positional point exponent)
where
  minus (negative : Bool) (cs : List Char) : List Char := if negative then '-' :: cs else cs

end StyleExpand
