import StyleExpand.Number.Amount
import StyleExpand.Number.Decimal

/-!
# What a plain scalar of YAML means

The words for nothing and for the truth values, integers in four bases, and floating-point numbers.
A leading zero before decimal digits makes a text of a number.
-/

namespace StyleExpand.Yaml

/-! ## Words -/

def isNull (s : String) : Bool := s ∈ ["null", "Null", "NULL", "~"]

def flag? (s : String) : Option Bool :=
  if s ∈ ["true", "True", "TRUE"] then some true
  else if s ∈ ["false", "False", "FALSE"] then some false
  else none

/-! ## Numbers -/

/-- Whether a text is a zero before other digits, its sign apart. -/
def hasLeadingZero (cs : List Char) : Bool :=
  match (Decimal.sign cs).2 with
  | '0' :: rest => !rest.isEmpty && rest.all Char.isDigit
  | _ => false

/-- The value of a digit, also of a letter as a digit. -/
def digit? (base : Nat) (c : Char) : Option Nat :=
  let n :=
    if c.isDigit then c.toNat - '0'.toNat
    else if c.isLower then c.toNat - 'a'.toNat + 10
    else if c.isUpper then c.toNat - 'A'.toNat + 10
    else base
  if n < base then some n else none

/-- The number that digits of a base give; at least one is needed. -/
def digits? (base : Nat) (cs : List Char) : Option Nat :=
  if cs.isEmpty then none
  else cs.foldl (fun n? c => n?.bind fun n => (digit? base c).map (base * n + ·)) (some 0)

/-- A number without a sign: with the mark of a base, or decimal. -/
def magnitude? (cs : List Char) : Option Nat :=
  match cs with
  | '0' :: 'x' :: rest => digits? 16 rest
  | '0' :: 'o' :: rest => digits? 8 rest
  | '0' :: 'b' :: rest => digits? 2 rest
  | cs => digits? 10 cs

/-- An integer, whatever its size. -/
def integer? (cs : List Char) : Option Int :=
  if hasLeadingZero cs then none
  else
    let (negative, rest) := Decimal.sign cs
    (magnitude? rest).map (Double.signed negative)

/-- What an integer comes to. -/
inductive IntegerSize where
  | fits (value : Amount)
  | tooWide
  | beyond
  deriving DecidableEq

/-- Integers of 64 bits count, wider ones of up to 128 bits are refused. -/
def IntegerSize.of (n : Int) : IntegerSize :=
  if -Int.pow 2 63 ≤ n ∧ n < Int.pow 2 64 then .fits (.ofInt n)
  else if -Int.pow 2 127 ≤ n ∧ n < Int.pow 2 128 then .tooWide
  else .beyond

/-- A floating-point number: one of the words, or a finite numeral. -/
def double? (cs : List Char) : Option Double :=
  let unsigned := match cs with
    | '+' :: rest => rest
    | cs => cs
  let infinity := [".inf", ".Inf", ".INF"].map String.toList
  if cs.head? == some '+' && (unsigned.head?.any fun c => c == '+' || c == '-') then none
  else if unsigned ∈ infinity then some (.infinite false)
  else if cs ∈ infinity.map ('-' :: ·) then some (.infinite true)
  else if cs ∈ [".nan", ".NaN", ".NAN"].map String.toList then some .nan
  else
    ((Decimal.read? unsigned).map Decimal.toDouble).filter Double.isFinite

end StyleExpand.Yaml
