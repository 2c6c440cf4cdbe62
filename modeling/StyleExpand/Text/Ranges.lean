/-!
# Sets of characters given by code point ranges

A class of characters is written as a list of closed ranges of code points, in increasing order.
-/

namespace StyleExpand.Text

/-- Closed ranges of code points, lowest first. -/
abbrev Ranges := List (Nat × Nat)

/-- Whether a character lies in one of the ranges. -/
def Ranges.holds (ranges : Ranges) (c : Char) : Bool :=
  ranges.any fun range => range.1 ≤ c.toNat && c.toNat ≤ range.2

end StyleExpand.Text
