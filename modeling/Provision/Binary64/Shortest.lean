import Provision.Binary64
import Provision.Text.Numeral

/-!
# Shortest decimals

The decimal of a finite number is the one with the fewest digits among those that round to the
number, and of these the nearest. `shortest` looks for it on ever finer decimal grids: if any point
of a grid lies in the interval that rounds to the number, so does one of the number's two
neighbours on that grid.
-/

namespace Provision

/-- A positive decimal `0.d₁d₂d₃… · 10^point`, with no zero at either end of its digits. -/
structure Decimal where
  digits : List Char
  point : Int
  deriving DecidableEq

namespace Decimal

/-- The decimal `n · 10^place`. -/
def ofNat (n : Nat) (place : Int) : Decimal :=
  let ds := Numeral.digits n
  let kept := (ds.reverse.dropWhile (· == '0')).reverse
  ⟨kept, place + ds.length⟩

end Decimal

namespace Binary64

/-- The reals that round to a number, as multiples of a common unit: from `low` to `high` around
`value`, with the ends if `closed`, in units of `unitNum / unitDen`. -/
structure Interval where
  low : Nat
  value : Nat
  high : Nat
  closed : Bool
  unitNum : Nat
  unitDen : Nat

/-- The interval of `m · 2^e`; it is half as wide below a power of two. -/
def Interval.ofParts (m : Nat) (e : Int) : Interval :=
  let (n, d) := scale 1 1 (e - 2)
  { low := if m = Nat.pow 2 52 ∧ -1074 < e then 4 * m - 1 else 4 * m - 2
    value := 4 * m
    high := 4 * m + 2
    closed := m % 2 = 0
    unitNum := n
    unitDen := d }

/-- Whether `c · 10^place` lies in the interval. -/
def Interval.holds (i : Interval) (c : Nat) (place : Int) : Bool :=
  let (n, d) : Nat × Nat := match place with
    | .ofNat k => (c * Nat.pow 10 k, 1)
    | .negSucc k => (c, Nat.pow 10 (k + 1))
  let x := n * i.unitDen
  let lo := i.low * i.unitNum * d
  let hi := i.high * i.unitNum * d
  if i.closed then lo ≤ x && x ≤ hi else lo < x && x < hi

/-- The whole number of steps `10^place` below the value, and twice what is left over against one
step. -/
def Interval.below (i : Interval) (place : Int) : Nat × Ordering :=
  let (n, d) : Nat × Nat := match place with
    | .ofNat k => (i.value * i.unitNum, i.unitDen * Nat.pow 10 k)
    | .negSucc k => (i.value * i.unitNum * Nat.pow 10 (k + 1), i.unitDen)
  (n / d, compare (2 * (n % d)) d)

/-- The point of the grid of step `10^place` in the interval nearest to the value, if one is. -/
def Interval.onGrid (i : Interval) (place : Int) : Option Nat :=
  let (c, left) := i.below place
  let nearFirst : List Nat := match left with
    | .lt => [c, c + 1]
    | .gt => [c + 1, c]
    | .eq => if c % 2 = 0 then [c, c + 1] else [c + 1, c]
  nearFirst.find? fun c => 0 < c && i.holds c place

/-- The number of digits before the point of the value; not positive for small ones. -/
def Interval.magnitude (i : Interval) : Int :=
  ((Numeral.digits (i.value * i.unitNum * Nat.pow 10 400 / i.unitDen)).length : Int) - 400

/-- The fewest digits that read back as `m · 2^e`. The exact decimal expansion stands in if
seventeen digits are not enough. -/
def shortest (m : Nat) (e : Int) : Decimal :=
  let i := Interval.ofParts m e
  let top := i.magnitude
  let hit := (List.range 17).findSome? fun n =>
    let place := top - (n + 1 : Nat)
    (i.onGrid place).map fun c => Decimal.ofNat c place
  hit.getD (match e with
    | .ofNat k => Decimal.ofNat (m * Nat.pow 2 k) 0
    | .negSucc k => Decimal.ofNat (m * Nat.pow 5 (k + 1)) (Int.negSucc k))

/-- How a format writes a number: the range of decimal points written in positional notation, and
the sign before a positive exponent. -/
structure Layout where
  leastPoint : Int
  greatestPoint : Int
  plus : String
  deriving DecidableEq

/-- The text of a positive decimal. -/
def Layout.write (l : Layout) (x : Decimal) : String :=
  if l.leastPoint ≤ x.point ∧ x.point ≤ l.greatestPoint then
    match x.point with
    | .negSucc k => "0." ++ String.ofList (List.replicate (k + 1) '0' ++ x.digits)
    | .ofNat 0 => "0." ++ String.ofList x.digits
    | .ofNat p =>
      if x.digits.length ≤ p then
        String.ofList (x.digits ++ List.replicate (p - x.digits.length) '0') ++ ".0"
      else String.ofList (x.digits.take p ++ '.' :: x.digits.drop p)
  else
    let e := x.point - 1
    let sign := if e < 0 then "-" else l.plus
    let mantissa : String := match x.digits with
      | [] => "0"
      | [d] => d.toString
      | d :: ds => String.ofList (d :: '.' :: ds)
    mantissa ++ "e" ++ sign ++ String.ofList (Numeral.digits e.natAbs)

/-- The text of a number; infinity and what is no number have texts of their own. -/
def Layout.text (l : Layout) (infinite : Bool → String) (nan : String) : Binary64 → String
  | .nan => nan
  | .infinite s => infinite s
  | .finite s m e _ =>
    let size := if m = 0 then "0.0" else l.write (shortest m e)
    if s then "-" ++ size else size

end Binary64

end Provision
