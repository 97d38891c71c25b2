import Provision.Table
import Provision.Binary64

/-!
# JSON values

A value is a tree; the members of an object are listed by name, each name once. `Value.Ordered`
says so at every depth, and whatever the library builds has it.
-/

namespace Provision

/-- A JSON value. Whole numbers keep their digits; other numbers are floating point. -/
inductive Value where
  | null
  | bool (b : Bool)
  | int (i : Int)
  | float (x : Binary64)
  | string (s : String)
  | list (items : List Value)
  | object (members : List (String × Value))

namespace Value

instance : Inhabited Value := ⟨.null⟩

/-- The object with the given members. -/
def ofTable (t : Table Value) : Value := .object t.entries

/-- The object with one member. -/
def single (name : String) (value : Value) : Value := .object [(name, value)]

/-- An object of members in any order; the last one of a name stays. -/
def ofMembers (members : List (String × Value)) : Value := .object (Entries.ofList members)

/-- The text of a value that is text. -/
def asString? : Value → Option String
  | .string s => some s
  | _ => none

/-- The truth value of a value that is one. -/
def asBool? : Value → Option Bool
  | .bool b => some b
  | _ => none

/-- The items of a value that is a list. -/
def asList? : Value → Option (List Value)
  | .list xs => some xs
  | _ => none

/-- The member of that name, if the value is an object that has one. -/
def member? (name : String) : Value → Option Value
  | .object ms => Entries.get? name ms
  | _ => none

/-- A whole number of sixty-four bits with a sign. -/
def asInt64? : Value → Option Int
  | .int i => if Binary64.int64Min ≤ i ∧ i ≤ Binary64.int64Max then some i else none
  | _ => none

/-- A whole number of sixty-four bits without a sign. -/
def asNat64? : Value → Option Nat
  | .int i => if 0 ≤ i ∧ i < Nat.pow 2 64 then some i.toNat else none
  | _ => none

/-- The value of any number as floating point. -/
def asFloat? : Value → Option Binary64
  | .int i => some (Binary64.ofInt i)
  | .float x => some x
  | _ => none

/-- An optional value, `null` for none. -/
def ofOption (f : α → Value) : Option α → Value
  | none => .null
  | some a => f a

/-- A text, or nothing. -/
def ofOptionalText (text : Option String) : Value := ofOption .string text

/-- A whole number without a sign. -/
def ofNat (n : Nat) : Value := .int n

/-- Texts in order. -/
def ofTexts (texts : List String) : Value := .list (texts.map .string)

/-- A table of texts. -/
def ofTextTable (t : Table String) : Value := ofTable (t.map fun _ s => .string s)

/-- A floating point number as JSON can say it: what is not finite has no numeral. -/
def ofFloat (x : Binary64) : Value := if x.isFinite then .float x else .null

mutual

/-- Every object lists its members by name. -/
def Ordered : Value → Prop
  | .list xs => OrderedItems xs
  | .object ms => Ascending (Entries.names ms) ∧ OrderedMembers ms
  | _ => True

@[inherit_doc Ordered]
def OrderedItems : List Value → Prop
  | [] => True
  | x :: xs => x.Ordered ∧ OrderedItems xs

@[inherit_doc Ordered]
def OrderedMembers : List (String × Value) → Prop
  | [] => True
  | (_, v) :: ms => v.Ordered ∧ OrderedMembers ms

end

end Value

end Provision
