import Provision.Document
import Provision.Text.Numeral

/-!
# JSON tokens

The characters of a text drive a small machine; a token comes out whenever one is complete. A text
has tokens only if every character fits, down to the escapes and the grammar of numbers.
-/

namespace Provision.Json

/-- The parts of a JSON text. -/
inductive Token where
  | openList
  | closeList
  | openObject
  | closeObject
  | comma
  | colon
  | atom (meaning : Scalar)
  deriving DecidableEq

namespace Numeral

/-- Digits taken into a significand of sixty-four bits: once the next one does not fit, it and all
after it are left out. `taken` and `left` count the two kinds. -/
structure Significand where
  value : Nat
  taken : Nat
  left : Nat

/-- Takes in the digits in order. -/
def Significand.absorb : Significand → List Char → Significand
  | s, [] => s
  | s, d :: ds =>
    let next := s.value * 10 + Provision.Numeral.digitValue d
    if s.left = 0 ∧ next < Nat.pow 2 64 then absorb ⟨next, s.taken + 1, 0⟩ ds
    else ⟨s.value, s.taken, s.left + (ds.length + 1)⟩

/-- The power of ten nearest to `10^k`. -/
def powerOfTen (k : Nat) : Binary64 := Binary64.ofDecimal false 1 k

/-- A power of ten is applied in steps of at most 308; every step rounds. Only a significand of
zero survives a power above the range. -/
def applyPower (x : Binary64) (exponent : Int) : Option Binary64 :=
  match exponent with
  | .ofNat k =>
    if k ≤ 308 then
      let y := x.mul (powerOfTen k)
      if y.isFinite then some y else none
    else if x.isZero then some x
    else none
  | .negSucc k => some (down (k / 308 + 1) x (k + 1))
where
  /-- Divides by `10^n`, with at most `fuel` steps. -/
  down : Nat → Binary64 → Nat → Binary64
    | 0, x, _ => x
    | fuel + 1, x, n =>
      if n ≤ 308 then x.div (powerOfTen n)
      else if x.isZero then x
      else down fuel (x.div (powerOfTen 308)) (n - 308)

/-- The parts of a number: `whole`, then perhaps a fraction, then perhaps an exponent with its
sign. A part that is announced has at least one digit, and `whole` has no needless zero. -/
structure Parts where
  negative : Bool
  whole : List Char
  fraction : Option (List Char)
  exponent : Option (Bool × List Char)

/-- The parts of a run of characters, if it is a number. -/
def Parts.ofChars (cs : List Char) : Option Parts := do
  let (negative, cs) := match cs with
    | '-' :: cs => (true, cs)
    | cs => (false, cs)
  let whole := cs.takeWhile Char.isDigit
  let cs := cs.dropWhile Char.isDigit
  if whole.isEmpty || (whole.head? == some '0' && 1 < whole.length) then none
  let (fraction, cs) ← match cs with
    | '.' :: cs =>
      let ds := cs.takeWhile Char.isDigit
      if ds.isEmpty then none else some (some ds, cs.dropWhile Char.isDigit)
    | cs => some (none, cs)
  let exponent ← match cs with
    | [] => some none
    | e :: cs =>
      if e != 'e' && e != 'E' then none
      else
        let (sign, ds) := Provision.Numeral.splitSign cs
        if ds.isEmpty || !ds.all Char.isDigit then none else some (some (sign, ds))
  some ⟨negative, whole, fraction, exponent⟩

/-- The meaning of a number with a fraction or an exponent, or of a whole one too large. -/
def Parts.float (p : Parts) : Option Binary64 := do
  let w := Significand.absorb ⟨0, 0, 0⟩ p.whole
  let f := Significand.absorb ⟨w.value, 0, 0⟩ (p.fraction.getD [])
  let start : Int := (w.left : Int) - f.taken
  let size : Binary64 := Binary64.ofInt f.value
  let x ← match p.exponent with
    | none => applyPower size start
    | some (negative, ds) =>
      let e := Provision.Numeral.value ds
      if Nat.pow 2 31 ≤ e then
        if f.value = 0 || negative then some (Binary64.zero false) else none
      else
        let total : Int := if negative then start - e else start + e
        applyPower size (max (-Nat.pow 2 31 : Int) (min (Nat.pow 2 31 - 1 : Int) total))
  some (if p.negative then x.neg else x)

/-- The meaning of a number: a whole one that fits sixty-four bits, or else floating point. -/
def Parts.meaning (p : Parts) : Option Scalar :=
  let n := Provision.Numeral.value p.whole
  match p.fraction, p.exponent with
  | none, none =>
    if p.negative then
      if n = 0 then some (.float (Binary64.zero true))
      else if n ≤ Nat.pow 2 63 then some (.int (-n))
      else p.float.map .float
    else if n < Nat.pow 2 64 then some (.int n)
    else p.float.map .float
  | _, _ => p.float.map .float

end Numeral

/-- What the machine is in the middle of. Characters already read are kept last first. -/
inductive Mode where
  | between
  | word (read : List Char)
  | number (read : List Char)
  | text (read : List Char)
  /-- After a backslash. -/
  | escape (read : List Char)
  /-- Inside the four digits of a code unit; `high` is the first half of a pair. -/
  | unit (read : List Char) (high : Option Nat) (digits : Nat) (value : Nat)
  /-- After the first half of a pair. -/
  | pair (read : List Char) (high : Nat)
  /-- After the first half of a pair and a backslash. -/
  | pairEscape (read : List Char) (high : Nat)

/-- The white space between tokens. -/
def isSpace (c : Char) : Bool := c == ' ' || c == '\t' || c == '\n' || c == '\r'

/-- The characters that a number is made of. -/
def isNumeral (c : Char) : Bool :=
  c.isDigit || c == '-' || c == '+' || c == '.' || c == 'e' || c == 'E'

/-- The meaning of a bare word. -/
def wordMeaning (cs : List Char) : Option Scalar :=
  if cs = ['n', 'u', 'l', 'l'] then some .null
  else if cs = ['t', 'r', 'u', 'e'] then some (.bool true)
  else if cs = ['f', 'a', 'l', 's', 'e'] then some (.bool false)
  else none

/-- A character between tokens. -/
def begin (c : Char) : Option (List Token × Mode) :=
  match c with
  | '[' => some ([.openList], .between)
  | ']' => some ([.closeList], .between)
  | '\x7b' => some ([.openObject], .between)
  | '\x7d' => some ([.closeObject], .between)
  | ',' => some ([.comma], .between)
  | ':' => some ([.colon], .between)
  | '"' => some ([], .text [])
  | c =>
    if isSpace c then some ([], .between)
    else if c.isDigit || c == '-' then some ([], .number [c])
    else if c.isAlpha then some ([], .word [c])
    else none

/-- A character after a token that ends where the next thing begins. -/
def closing (meaning : Option Scalar) (c : Char) : Option (List Token × Mode) := do
  let m ← meaning
  let (ts, mode) ← begin c
  some (.atom m :: ts, mode)

/-- The value of a hexadecimal digit in either case. -/
def hexValue (c : Char) : Option Nat :=
  if c.isDigit then some (c.toNat - '0'.toNat)
  else if 'a' ≤ c ∧ c ≤ 'f' then some (c.toNat - 'a'.toNat + 10)
  else if 'A' ≤ c ∧ c ≤ 'F' then some (c.toNat - 'A'.toNat + 10)
  else none

/-- What a complete code unit does: it is a character, or the first or second half of a pair. -/
def unitDone (read : List Char) (high : Option Nat) (value : Nat) : Option Mode :=
  match high with
  | none =>
    if 0xD800 ≤ value ∧ value < 0xDC00 then some (.pair read value)
    else if 0xDC00 ≤ value ∧ value < 0xE000 then none
    else some (.text (Char.ofNat value :: read))
  | some h =>
    if 0xDC00 ≤ value ∧ value < 0xE000 then
      some (.text (Char.ofNat (0x10000 + (h - 0xD800) * 0x400 + (value - 0xDC00)) :: read))
    else none

/-- The character that a letter after a backslash stands for. -/
def shortEscape (c : Char) : Option Char :=
  match c with
  | '"' => some '"'
  | '\\' => some '\\'
  | '/' => some '/'
  | 'b' => some '\x08'
  | 'f' => some '\x0c'
  | 'n' => some '\n'
  | 'r' => some '\r'
  | 't' => some '\t'
  | _ => none

/-- One character drives the machine one step. -/
def Mode.step (mode : Mode) (c : Char) : Option (List Token × Mode) :=
  match mode with
  | .between => begin c
  | .word read =>
    if c.isAlpha then some ([], .word (c :: read)) else closing (wordMeaning read.reverse) c
  | .number read =>
    if isNumeral c then some ([], .number (c :: read))
    else closing ((Numeral.Parts.ofChars read.reverse).bind Numeral.Parts.meaning) c
  | .text read =>
    if c = '"' then some ([.atom (.string (String.ofList read.reverse))], .between)
    else if c = '\\' then some ([], .escape read)
    else if c.toNat < 0x20 then none
    else some ([], .text (c :: read))
  | .escape read =>
    if c = 'u' then some ([], .unit read none 0 0)
    else (shortEscape c).map fun d => ([], .text (d :: read))
  | .unit read high digits value => do
    let h ← hexValue c
    if digits = 3 then (unitDone read high (16 * value + h)).map fun m => ([], m)
    else some ([], .unit read high (digits + 1) (16 * value + h))
  | .pair read high => if c = '\\' then some ([], .pairEscape read high) else none
  | .pairEscape read high => if c = 'u' then some ([], .unit read (some high) 0 0) else none

/-- What the end of the text does. -/
def Mode.finish : Mode → Option (List Token)
  | .between => some []
  | .word read => (wordMeaning read.reverse).map fun m => [.atom m]
  | .number read =>
    ((Numeral.Parts.ofChars read.reverse).bind Numeral.Parts.meaning).map fun m => [.atom m]
  | _ => none

/-- The tokens of the characters from a mode on, after those already found, last first. -/
def lexFrom : Mode → List Token → List Char → Option (List Token)
  | mode, found, [] => mode.finish.map fun ts => found.reverse ++ ts
  | mode, found, c :: cs =>
    match mode.step c with
    | none => none
    | some (ts, mode) => lexFrom mode (ts.reverse ++ found) cs

/-- The tokens of a text. -/
def lex (text : String) : Option (List Token) := lexFrom .between [] text.toList

end Provision.Json
