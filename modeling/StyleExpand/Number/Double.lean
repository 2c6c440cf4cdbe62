/-!
# Double precision numbers

A finite double is a whole number of *units*, the least positive double `2 ^ (-1074)`. Written this
way sums and comparisons are those of whole numbers, and rounding is the one place where the 53
significant bits show:

* `Double.round`: the double nearest to a quotient of units, a tie going to the even neighbour;
* `Double.add`, `Double.mul`, `Double.div`: exact arithmetic, then `round`;
* `Double.compare?`: the order, which says nothing about `nan`;
* `Double.ofBits` and `Double.toBits`: the interchange format of 64 bits.
-/

namespace StyleExpand

/-- A double: a finite one is `units` times `2 ^ (-1074)`, and zero has two signs. -/
inductive Double where
  | nan
  | infinite (negative : Bool)
  | finite (negative : Bool) (units : Nat)
  deriving DecidableEq

namespace Double

instance : Inhabited Double := ⟨.nan⟩

/-- The units in the number one. -/
def unitsPerOne : Nat := Nat.pow 2 1074

/-- The units of the least magnitude that has no finite double. -/
def tooManyUnits : Nat := Nat.pow 2 2098

def zero : Double := .finite false 0

def one : Double := .finite false unitsPerOne

def isNaN : Double → Bool
  | .nan => true
  | _ => false

def isZero : Double → Bool
  | .finite _ 0 => true
  | _ => false

def isFinite : Double → Bool
  | .finite _ _ => true
  | _ => false

/-! ## Rounding -/

/-- The whole number nearest to a quotient, a tie going to the even one. -/
def roundDiv (num den : Nat) : Nat :=
  let quotient := num / den
  let rest := num % den
  if 2 * rest < den then quotient
  else if den < 2 * rest then quotient + 1
  else quotient + quotient % 2

/-- The distance between neighbouring doubles at a magnitude of `units`: 53 bits are significant. -/
def spacing (units : Nat) : Nat := Nat.pow 2 (units.log2 + 1 - 53)

/-- The double nearest to `num / den` units. -/
def round (negative : Bool) (num den : Nat) : Double :=
  let step := spacing (num / den)
  let units := roundDiv num (den * step) * step
  if units < tooManyUnits then .finite negative units else .infinite negative

theorem spacing_pos (units : Nat) : 0 < spacing units := Nat.two_pow_pos _

theorem roundDiv_of_dvd {num den : Nat} (hden : 0 < den) (h : den ∣ num) :
    roundDiv num den = num / den := by
  simp [roundDiv, Nat.mod_eq_zero_of_dvd h, hden]

/-- A whole number of units with at most 53 significant bits is its own rounding. -/
theorem round_of_dvd {negative : Bool} {units : Nat} (h : spacing units ∣ units)
    (hlt : units < tooManyUnits) : round negative units 1 = .finite negative units := by
  unfold round
  simp only [Nat.div_one, Nat.one_mul]
  rw [roundDiv_of_dvd (spacing_pos units) h, Nat.div_mul_cancel h, if_pos hlt]

/-! ## Arithmetic -/

def neg : Double → Double
  | .nan => .nan
  | .infinite negative => .infinite (!negative)
  | .finite negative units => .finite (!negative) units

def abs : Double → Double
  | .nan => .nan
  | .infinite _ => .infinite false
  | .finite _ units => .finite false units

/-- The sum; opposite numbers add up to the positive zero. -/
def add : Double → Double → Double
  | .nan, _ => .nan
  | _, .nan => .nan
  | .infinite a, .infinite b => if a = b then .infinite a else .nan
  | .infinite a, .finite _ _ => .infinite a
  | .finite _ _, .infinite b => .infinite b
  | .finite a x, .finite b y =>
    if a = b then round a (x + y) 1
    else if x = y then zero
    else if y < x then round a (x - y) 1
    else round b (y - x) 1

def mul : Double → Double → Double
  | .nan, _ => .nan
  | _, .nan => .nan
  | .infinite a, .infinite b => .infinite (a != b)
  | .infinite a, .finite b y => if y = 0 then .nan else .infinite (a != b)
  | .finite a x, .infinite b => if x = 0 then .nan else .infinite (a != b)
  | .finite a x, .finite b y => round (a != b) (x * y) unitsPerOne

def div : Double → Double → Double
  | .nan, _ => .nan
  | _, .nan => .nan
  | .infinite _, .infinite _ => .nan
  | .infinite a, .finite b _ => .infinite (a != b)
  | .finite a _, .infinite b => .finite (a != b) 0
  | .finite a x, .finite b y =>
    if y = 0 then (if x = 0 then .nan else .infinite (a != b))
    else round (a != b) (x * unitsPerOne) y

/-- A whole number, rounded to the nearest double. -/
def ofNat (negative : Bool) (n : Nat) : Double := round negative (n * unitsPerOne) 1

/-! ## Order -/

def signed (negative : Bool) (n : Nat) : Int := if negative then -(n : Int) else n

/-- The place of a double in the order, which puts the infinities outside every finite double. -/
def rank? : Double → Option Int
  | .nan => none
  | .infinite negative => some (signed negative tooManyUnits)
  | .finite negative units => some (signed negative units)

/-- The order of two doubles; `nan` has no place in it, and the two zeros are equal. -/
def compare? (a b : Double) : Option Ordering :=
  match a.rank?, b.rank? with
  | some x, some y => some (compare x y)
  | _, _ => none

def eq (a b : Double) : Bool := a.compare? b == some .eq

def le (a b : Double) : Bool := a.compare? b == some .lt || a.compare? b == some .eq

/-! ## The interchange format -/

/-- The double of a 64 bit pattern: a sign, 11 bits of exponent and 52 bits of fraction. -/
def ofBits (bits : Nat) : Double :=
  let negative := bits / Nat.pow 2 63 % 2 = 1
  let exponent := bits / Nat.pow 2 52 % Nat.pow 2 11
  let fraction := bits % Nat.pow 2 52
  if exponent = 2047 then
    if fraction = 0 then .infinite negative else .nan
  else if exponent = 0 then .finite negative fraction
  else .finite negative ((Nat.pow 2 52 + fraction) * Nat.pow 2 (exponent - 1))

/-- The 64 bit pattern of a double; `nan` is written as the quiet one. -/
def toBits : Double → Nat
  | .nan => 2047 * Nat.pow 2 52 + Nat.pow 2 51
  | .infinite negative => sign negative + 2047 * Nat.pow 2 52
  | .finite negative units =>
    let shift := units.log2 + 1 - 53
    sign negative + shift * Nat.pow 2 52 + units / Nat.pow 2 shift
where
  sign (negative : Bool) : Nat := if negative then Nat.pow 2 63 else 0

end Double

end StyleExpand
