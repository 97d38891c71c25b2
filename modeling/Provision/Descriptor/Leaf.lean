import Provision.Fault
import Provision.Document

/-!
# Descriptor leaves

The leaves of a descriptor are values that may stand for an input of the descriptor: in JSON, an
object whose only member is `get_input` with the name of the input. Every other object is a
mapping.
-/

namespace Provision

/-- A value in a descriptor; the entries of a mapping are listed by name. -/
inductive Leaf where
  | null
  | bool (b : Bool)
  | int (i : Int)
  | float (x : Binary64)
  | string (s : String)
  | list (items : List Leaf)
  | map (entries : List (String × Leaf))
  /-- The value of an input. -/
  | input (name : String)

namespace Leaf

instance : Inhabited Leaf := ⟨.null⟩

/-- The name of the one member of a reference to an input. -/
def inputKey : String := "get_input"

/-- A number: a whole one if it fits sixty-four bits with a sign. -/
def ofInt (i : Int) : Leaf :=
  if Binary64.int64Min ≤ i ∧ i ≤ Binary64.int64Max then .int i else .float (Binary64.ofInt i)

/-- The input that the members of an object refer to. -/
def inputOf? : List (String × Value) → Option String
  | [(key, .string name)] => if key = inputKey then some name else none
  | _ => none

mutual

/-- The leaf that a JSON value says. -/
def ofValue : Value → Leaf
  | .null => .null
  | .bool b => .bool b
  | .int i => ofInt i
  | .float x => .float x
  | .string s => .string s
  | .list xs => .list (ofItems xs)
  | .object ms => match inputOf? ms with
    | some name => .input name
    | none => .map (ofMembers ms)

@[inherit_doc ofValue]
def ofItems : List Value → List Leaf
  | [] => []
  | x :: xs => ofValue x :: ofItems xs

@[inherit_doc ofValue]
def ofMembers : List (String × Value) → List (String × Leaf)
  | [] => []
  | (k, v) :: ms => (k, ofValue v) :: ofMembers ms

end

mutual

/-- The JSON value of a leaf. -/
def toValue : Leaf → Value
  | .null => .null
  | .bool b => .bool b
  | .int i => .int i
  | .float x => Value.ofFloat x
  | .string s => .string s
  | .list xs => .list (toItems xs)
  | .map es => .object (toMembers es)
  | .input name => Value.single inputKey (.string name)

@[inherit_doc toValue]
def toItems : List Leaf → List Value
  | [] => []
  | x :: xs => toValue x :: toItems xs

@[inherit_doc toValue]
def toMembers : List (String × Leaf) → List (String × Value)
  | [] => []
  | (k, v) :: es => (k, toValue v) :: toMembers es

end

mutual

/-- The names of the inputs that a leaf refers to, in order. -/
def inputList : Leaf → List String
  | .input name => [name]
  | .list xs => inputListItems xs
  | .map es => inputListEntries es
  | _ => []

@[inherit_doc inputList]
def inputListItems : List Leaf → List String
  | [] => []
  | x :: xs => inputList x ++ inputListItems xs

@[inherit_doc inputList]
def inputListEntries : List (String × Leaf) → List String
  | [] => []
  | (_, v) :: es => inputList v ++ inputListEntries es

end

/-- The leaf that a document says. -/
def ofNode? (n : Node) : Option Leaf := n.value?.map ofValue

end Leaf

end Provision
