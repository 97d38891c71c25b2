import Provision.Document
import Provision.Text.Numeral

/-!
# The meaning of scalars

A plain scalar means nothing, a truth value, a number or else its own text, by how it is spelled. A
tag of the common schema says which of these it has to be, any other tag of the schema makes it
text, and a tag of somebody's own marks it.
-/

namespace Provision.Yaml

/-- Whether a text spells nothing. -/
def isNullText (s : String) : Bool := s == "null" || s == "Null" || s == "NULL" || s == "~"

/-- The truth value that a text spells. -/
def boolOf? (s : String) : Option Bool :=
  if s == "true" || s == "True" || s == "TRUE" then some true
  else if s == "false" || s == "False" || s == "FALSE" then some false
  else none

/-- Whether a text is made of digits after a needless zero, and so is no number. -/
def isZeroLed (s : String) : Bool :=
  let cs := match s.toList with
    | '-' :: cs => cs
    | '+' :: cs => cs
    | cs => cs
  1 < cs.length && cs.head? == some '0' && cs.all Char.isDigit

/-- The value of a digit in either case. -/
def digitValue? (c : Char) : Option Nat :=
  if c.isDigit then some (c.toNat - '0'.toNat)
  else if 'a' ≤ c ∧ c ≤ 'z' then some (c.toNat - 'a'.toNat + 10)
  else if 'A' ≤ c ∧ c ≤ 'Z' then some (c.toNat - 'A'.toNat + 10)
  else none

/-- The number that digits to some base spell. -/
def natOf? (base : Nat) (cs : List Char) : Option Nat :=
  if cs.isEmpty then none
  else cs.foldlM (fun n c => do
    let d ← digitValue? c
    if d < base then some (n * base + d) else none) 0

/-- The number that digits spell after a zero and the letter of their base. -/
def basedNat? : List Char → Option Nat
  | '0' :: 'x' :: cs => natOf? 16 cs
  | '0' :: 'o' :: cs => natOf? 8 cs
  | '0' :: 'b' :: cs => natOf? 2 cs
  | _ => none

/-- The digits of a whole number, with or without a base. -/
def magnitude? (zeroLed : Bool) (cs : List Char) : Option Nat :=
  basedNat? cs <|> if zeroLed then none else natOf? 10 cs

/-- The whole number that a text spells, if it fits 128 bits. -/
def intOf? (s : String) : Option Int :=
  let zeroLed := isZeroLed s
  let within (bound : Nat) (n : Nat) : Option Nat := if n ≤ bound then some n else none
  match s.toList with
  | '-' :: cs => ((magnitude? zeroLed cs).bind (within (Nat.pow 2 127))).map fun n => -(n : Int)
  | '+' :: cs => ((magnitude? zeroLed cs).bind (within (Nat.pow 2 128 - 1))).map fun n => (n : Int)
  | cs => ((magnitude? zeroLed cs).bind (within (Nat.pow 2 128 - 1))).map fun n => (n : Int)

/-- The floating point number that a text spells; one too large is none. -/
def floatOf? (s : String) : Option Binary64 :=
  let infinities := [".inf", ".Inf", ".INF"]
  let body? : Option String := match s.toList with
    | '+' :: '+' :: _ => none
    | '+' :: '-' :: _ => none
    | '+' :: cs => some (String.ofList cs)
    | _ => some s
  match body? with
  | none => none
  | some body =>
    if infinities.contains body then some (.infinite false)
    else if (infinities.map fun t => "-" ++ t).contains s then some (.infinite true)
    else if s == ".nan" || s == ".NaN" || s == ".NAN" then some .nan
    else (Numeral.readFloat body).filter Binary64.isFinite

/-- The meaning of a plain scalar without a tag. -/
def plainMeaning (s : String) : Scalar :=
  if s.isEmpty || isNullText s then .null
  else
    match boolOf? s with
    | some b => .bool b
    | none =>
      match intOf? s with
      | some i => .int i
      | none =>
        match (if isZeroLed s then none else floatOf? s) with
        | some x => .float x
        | none => .string s

/-- A tag of the common schema. -/
def schemaTag (name : String) : String := "tag:yaml.org,2002:" ++ name

/-- Whether a tag is somebody's own. -/
def isOwnTag (tag : String) : Bool := tag.toList.head? == some '!'

/-- What a tag of the common schema requires a scalar to mean; nothing, if it means something
else. -/
def taggedMeaning? (tag text : String) : Option Scalar :=
  if tag = schemaTag "bool" then (boolOf? text).map .bool
  else if tag = schemaTag "int" then (intOf? text).map .int
  else if tag = schemaTag "float" then (floatOf? text).map .float
  else if tag = schemaTag "null" then (if isNullText text then some .null else none)
  else some (.string text)

/-- The document of a scalar. -/
def scalarNode (tag : Option String) (text : String) (plain : Bool) : Node :=
  let untagged : Node :=
    .scalar (if plain then plainMeaning text else .string text) (some text)
  match tag with
  | none => untagged
  | some tag =>
    if isOwnTag tag then .marked untagged
    else
      match taggedMeaning? tag text with
      | some m => .scalar m (some text)
      | none => .marked (.scalar (.string text) (some text))

/-- The document of a list or a mapping with a tag. -/
def collectionNode (tag : Option String) (n : Node) : Node :=
  match tag with
  | some tag => if isOwnTag tag then .marked n else n
  | none => n

end Provision.Yaml
