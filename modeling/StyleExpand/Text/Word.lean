import StyleExpand.Text.Alphabetic
import StyleExpand.Text.Mark
import StyleExpand.Text.Numeral

/-!
# Characters of names

* `isWord`: the characters of words, as Unicode recommends them for text search;
* `isLetterOrNumeral`: letters and numbers only;
* `isNameStart` and `isNameChar`: how the name of a variable begins and goes on.
-/

namespace StyleExpand.Text

/-- Underscores and the other punctuation that joins words. -/
def connectors : Ranges :=
  [(0x5F, 0x5F), (0x203F, 0x2040), (0x2054, 0x2054), (0xFE33, 0xFE34), (0xFE4D, 0xFE4F),
    (0xFF3F, 0xFF3F)]

/-- The two joiners, which have no width. -/
def joiners : Ranges := [(0x200C, 0x200D)]

def isLetterOrNumeral (c : Char) : Bool :=
  decimalDigits.holds c || alphabetic.holds c || otherNumbers.holds c

/-- Letters, marks, decimal digits, connecting punctuation and joiners. -/
def isWord (c : Char) : Bool :=
  connectors.holds c || decimalDigits.holds c || alphabetic.holds c || marks.holds c ||
    joiners.holds c

/-- A variable is referred to by a name that starts with a Latin letter or an underscore. -/
def isNameStart (c : Char) : Bool := c.isAlpha || c == '_'

/-- Every later character of a name is a word character or a hyphen. -/
def isNameChar (c : Char) : Bool := isWord c || c == '-'

end StyleExpand.Text
