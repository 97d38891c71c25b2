/-!
# Binary floating point

Numbers with fifty-three binary digits, as exact values: a finite one is `± m · 2^e` with `m` and
`e` in canonical form, so equal numbers are equal terms. Every operation computes the exact
rational result and rounds once, to the nearest number, ties to the even one.
-/

namespace Provision

/-- The one form `m · 2^e` of a finite number: `m` has fifty-three digits, or `e` is least. -/
abbrev Binary64.Canonical (m : Nat) (e : Int) : Prop :=
  m < Nat.pow 2 53 ∧ -1074 ≤ e ∧ e ≤ 971 ∧ (Nat.pow 2 52 ≤ m ∨ e = -1074)

/-- A floating point number. -/
inductive Binary64 where
  /-- The number `± mantissa · 2^exponent`. -/
  | finite (negative : Bool) (mantissa : Nat) (exponent : Int)
      (canonical : Binary64.Canonical mantissa exponent)
  | infinite (negative : Bool)
  | nan
  deriving DecidableEq

namespace Binary64

/-- Zero with a sign. -/
def zero (negative : Bool) : Binary64 :=
  .finite negative 0 (-1074) (by decide)

instance : Inhabited Binary64 := ⟨zero false⟩

/-- The number of canonical form, or infinity if the parts are too large for one. -/
def ofParts (negative : Bool) (m : Nat) (e : Int) : Binary64 :=
  if h : Canonical m e then .finite negative m e h else .infinite negative

/-- The quotient to the nearest whole number, a tie to the even one. -/
def divideToEven (num den : Nat) : Nat :=
  let q := num / den
  let r := num % den
  if 2 * r < den then q
  else if den < 2 * r then q + 1
  else if q % 2 = 0 then q else q + 1

/-- `num / den · 2^e` as a quotient of whole numbers. -/
def scale (num den : Nat) : Int → Nat × Nat
  | .ofNat k => (num * Nat.pow 2 k, den)
  | .negSucc k => (num, den * Nat.pow 2 (k + 1))

/-- The exponent of the last binary digit kept of `num / den`. -/
def lastPlace (num den : Nat) : Int :=
  let guess : Int := max ((num.log2 : Int) - (den.log2 : Int) - 52) (-1074)
  let (n, d) := scale num den (-guess)
  if n / d < Nat.pow 2 52 ∧ -1074 < guess then guess - 1 else guess

/-- The number nearest to `± num / den`. -/
def ofRatio (negative : Bool) (num den : Nat) : Binary64 :=
  if num = 0 then zero negative
  else
    let e := lastPlace num den
    let (n, d) := scale num den (-e)
    let m := divideToEven n d
    if m = Nat.pow 2 53 then ofParts negative (Nat.pow 2 52) (e + 1) else ofParts negative m e

/-- The number nearest to `± num / den · 2^e`. -/
def ofScaled (negative : Bool) (num den : Nat) (e : Int) : Binary64 :=
  let (n, d) := scale num den e
  ofRatio negative n d

/-- The number nearest to a whole number. -/
def ofInt (i : Int) : Binary64 := ofRatio (decide (i < 0)) i.natAbs 1

/-- The number nearest to `± digits · 10^exponent`. Exponents far outside the range are settled
by size alone: `digits` has at most `digits.log2 + 1` decimal places. -/
def ofDecimal (negative : Bool) (digits : Nat) (exponent : Int) : Binary64 :=
  if digits = 0 then zero negative
  else if 400 < exponent then .infinite negative
  else if exponent + digits.log2 + 1 < -400 then zero negative
  else match exponent with
    | .ofNat k => ofRatio negative (digits * Nat.pow 10 k) 1
    | .negSucc k => ofRatio negative digits (Nat.pow 10 (k + 1))

/-- Whether the number is neither infinite nor undefined. -/
def isFinite : Binary64 → Bool
  | .finite .. => true
  | _ => false

/-- Whether the number is zero, of either sign. -/
def isZero : Binary64 → Bool
  | .finite _ m _ _ => m == 0
  | _ => false

/-- The opposite number. -/
def neg : Binary64 → Binary64
  | .finite s m e h => .finite (!s) m e h
  | .infinite s => .infinite (!s)
  | .nan => .nan

/-- The rounded product. -/
def mul : Binary64 → Binary64 → Binary64
  | .nan, _ => .nan
  | _, .nan => .nan
  | .infinite s, .infinite t => .infinite (s != t)
  | .infinite s, .finite t m _ _ => if m = 0 then .nan else .infinite (s != t)
  | .finite s m _ _, .infinite t => if m = 0 then .nan else .infinite (s != t)
  | .finite s m e _, .finite t n f _ => ofScaled (s != t) (m * n) 1 (e + f)

/-- The rounded quotient. -/
def div : Binary64 → Binary64 → Binary64
  | .nan, _ => .nan
  | _, .nan => .nan
  | .infinite _, .infinite _ => .nan
  | .infinite s, .finite t .. => .infinite (s != t)
  | .finite s .., .infinite t => zero (s != t)
  | .finite s m e _, .finite t n f _ =>
    if n = 0 then (if m = 0 then .nan else .infinite (s != t))
    else ofScaled (s != t) m n (e - f)

/-- The least and the greatest whole number of sixty-four bits with a sign. -/
def int64Min : Int := -Nat.pow 2 63

@[inherit_doc int64Min]
def int64Max : Int := Nat.pow 2 63 - 1

/-- The whole part as a number of sixty-four bits with a sign; what lies outside the range becomes
its nearer end, and what is no number becomes zero. -/
def toInt64 : Binary64 → Int
  | .nan => 0
  | .infinite s => if s then int64Min else int64Max
  | .finite s m e _ =>
    let (n, d) := scale m 1 e
    let i : Int := if s then -((n / d : Nat) : Int) else (n / d : Nat)
    max int64Min (min int64Max i)

end Binary64

end Provision
