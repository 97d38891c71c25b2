import Provision.Binary64

/-!
# Numerals

Decimal digits of whole numbers, and the readers of numbers written in text. A reader takes the
whole text or nothing; it allows a sign and leading zeros, and nothing else around the digits.
-/

namespace Provision.Numeral

/-- The digit of a number below ten. -/
def digit (n : Nat) : Char := Char.ofNat ('0'.toNat + n)

/-- The decimal digits of a number, with no leading zero. -/
def digits (n : Nat) : List Char :=
  if n < 10 then [digit n] else digits (n / 10) ++ [digit (n % 10)]

/-- The text of a whole number. -/
def ofNat (n : Nat) : String := String.ofList (digits n)

/-- The text of a whole number with a sign if it is negative. -/
def ofInt (i : Int) : String := if i < 0 then "-" ++ ofNat i.natAbs else ofNat i.natAbs

/-- The value of a digit. -/
def digitValue (c : Char) : Nat := c.toNat - '0'.toNat

/-- The number whose decimal digits are `ds`. -/
def value (ds : List Char) : Nat := ds.foldl (fun n d => 10 * n + digitValue d) 0

/-- The number that a text of digits alone stands for. -/
def readDigits (cs : List Char) : Option Nat :=
  if !cs.isEmpty && cs.all Char.isDigit then some (value cs) else none

/-- A sign, and the text after it. -/
def splitSign : List Char → Bool × List Char
  | '-' :: cs => (true, cs)
  | '+' :: cs => (false, cs)
  | cs => (false, cs)

/-- A whole number that fits sixty-four bits with a sign. -/
def readInt64 (text : String) : Option Int := do
  let (negative, cs) := splitSign text.toList
  let n ← readDigits cs
  let i : Int := if negative then -n else n
  if Binary64.int64Min ≤ i ∧ i ≤ Binary64.int64Max then some i else none

/-- A whole number below `bound` without a minus sign. -/
def readNat (bound : Nat) (text : String) : Option Nat := do
  let cs := match text.toList with
    | '+' :: cs => cs
    | cs => cs
  let n ← readDigits cs
  if n < bound then some n else none

/-- An exponent with its sign; its digits may not be missing. -/
def readExponent (cs : List Char) : Option Int := do
  let (negative, ds) := splitSign cs
  let n ← readDigits ds
  some (if negative then -(n : Int) else n)

/-- Digits with at most one point among them and at least one digit, then perhaps an exponent. -/
def readDecimal (negative : Bool) (cs : List Char) : Option Binary64 := do
  let whole := cs.takeWhile Char.isDigit
  let afterWhole := cs.dropWhile Char.isDigit
  let (fraction, rest) := match afterWhole with
    | '.' :: ds => (ds.takeWhile Char.isDigit, ds.dropWhile Char.isDigit)
    | ds => ([], ds)
  if whole.isEmpty && fraction.isEmpty then none
  else
    let exponent ← match rest with
      | [] => some 0
      | 'e' :: es => readExponent es
      | 'E' :: es => readExponent es
      | _ => none
    some (Binary64.ofDecimal negative (value (whole ++ fraction)) (exponent - fraction.length))

/-- A floating point number: a decimal, or infinity and what is no number by name, in any case of
letters. -/
def readFloat (text : String) : Option Binary64 :=
  let (negative, cs) := splitSign text.toList
  match String.ofList (cs.map Char.toLower) with
  | "inf" => some (.infinite negative)
  | "infinity" => some (.infinite negative)
  | "nan" => some .nan
  | _ => readDecimal negative cs

end Provision.Numeral
