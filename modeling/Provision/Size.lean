import Provision.Json.Value
import Provision.Text.Blank
import Provision.Text.Numeral

/-!
# Sizes

A size is a number of units, or a number with its unit written out. Units are powers of 1024
whichever way they are spelled.
-/

namespace Provision

/-- A unit of size; each of the decimal names stands for the binary unit beside it. -/
inductive SizeUnit where
  | bytes
  | kilo
  | kibi
  | mega
  | mebi
  | giga
  | gibi
  | tera
  | tebi
  deriving DecidableEq

namespace SizeUnit

/-- The unit of that spelling. -/
def ofText? (text : String) : Option SizeUnit :=
  if text = "B" || text = "b" then some .bytes
  else if text = "kB" || text = "KB" || text = "kb" then some .kilo
  else if text = "KiB" || text = "kiB" then some .kibi
  else if text = "MB" || text = "mb" then some .mega
  else if text = "MiB" then some .mebi
  else if text = "GB" || text = "gb" then some .giga
  else if text = "GiB" then some .gibi
  else if text = "TB" || text = "tb" then some .tera
  else if text = "TiB" then some .tebi
  else none

/-- The unit is 1024 bytes to this power. -/
def power : SizeUnit → Nat
  | .bytes => 0
  | .kilo | .kibi => 1
  | .mega | .mebi => 2
  | .giga | .gibi => 3
  | .tera | .tebi => 4

/-- The number of bytes in the unit. -/
def inBytes (u : SizeUnit) : Binary64 := Binary64.ofInt (Nat.pow 1024 u.power)

end SizeUnit

namespace Size

/-- A written size in whole units. Letters begin the unit; without them the number counts units
already. -/
def ofText? (target : SizeUnit) (text : String) : Option Int := do
  let cs := Blank.trimList text.toList
  let number ← Numeral.readFloat
    (String.ofList (Blank.trimList (cs.takeWhile fun c => !c.isAlpha)))
  match cs.dropWhile fun c => !c.isAlpha with
  | [] => some number.toInt64
  | us => do
    let unit ← SizeUnit.ofText? (String.ofList (Blank.trimList us))
    some ((number.mul unit.inBytes).div target.inBytes).toInt64

/-- A value as a whole number of units; a plain number counts units already. -/
def ofValue? (target : SizeUnit) : Value → Option Int
  | .int i => some <|
    if Binary64.int64Min ≤ i ∧ i ≤ Binary64.int64Max then i else (Binary64.ofInt i).toInt64
  | .float x => some x.toInt64
  | .string s => ofText? target s
  | _ => none

end Size

/-- A value as a whole number: a number, or the text of one. -/
def Value.asCount? : Value → Option Int
  | .string s => Numeral.readInt64 (Blank.trim s)
  | v => v.asInt64?

end Provision
