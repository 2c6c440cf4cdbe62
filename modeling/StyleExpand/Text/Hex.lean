/-!
# Hexadecimal digits
-/

namespace StyleExpand.Text

def hexDigit? (c : Char) : Option Nat :=
  if c.isDigit then some (c.toNat - '0'.toNat)
  else if 'a' ≤ c ∧ c ≤ 'f' then some (c.toNat - 'a'.toNat + 10)
  else if 'A' ≤ c ∧ c ≤ 'F' then some (c.toNat - 'A'.toNat + 10)
  else none

/-- The number that hexadecimal digits give. -/
def hexValue? (cs : List Char) : Option Nat :=
  cs.foldl (fun n? c => n?.bind fun n => (hexDigit? c).map (16 * n + ·)) (some 0)

end StyleExpand.Text
