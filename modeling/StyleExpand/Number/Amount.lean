import StyleExpand.Number.Double

/-!
# Integers and doubles

The value of a number in an options file: integers of 64 bits stay what they are, and any other
number is a double.
-/

namespace StyleExpand

inductive Amount where
  | integer (value : Int)
  | double (value : Double)
  deriving DecidableEq

/-- An integer, or the nearest double if it does not fit into 64 bits. -/
def Amount.ofInt (n : Int) : Amount :=
  if -Int.pow 2 63 ≤ n ∧ n < Int.pow 2 63 then .integer n else .double (.ofNat (n < 0) n.natAbs)

end StyleExpand
