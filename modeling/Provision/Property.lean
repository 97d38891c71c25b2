import Provision.Fault

/-!
# Property values

The properties of a resource are trees whose leaves may refer to other resources of the same
template, or to template parameters. In JSON a reference is an object with one member of a reserved
name; every other object is a mapping.
-/

namespace Provision

/-- One step of a path into the attributes of a resource. -/
inductive AttrStep where
  | key (name : String)
  | index (i : Nat)
  deriving DecidableEq

namespace AttrStep

/-- The step in JSON. -/
def toValue : AttrStep → Value
  | .key name => .string name
  | .index i => .int i

/-- The step that a JSON value names. -/
def ofValue? : Value → Option AttrStep
  | .string name => some (.key name)
  | .int i => if 0 ≤ i ∧ i < Nat.pow 2 64 then some (.index i.toNat) else none
  | _ => none

/-- The step in diagnostics. -/
def debug : AttrStep → String
  | .key name => "Key(" ++ Quoted.text name ++ ")"
  | .index i => "Index(" ++ Numeral.ofNat i ++ ")"

end AttrStep

/-- A property value; the entries of a mapping are listed by name. -/
inductive Property where
  | null
  | bool (b : Bool)
  | int (i : Int)
  | float (x : Binary64)
  | string (s : String)
  | list (items : List Property)
  | map (entries : List (String × Property))
  /-- A whole resource. -/
  | resource (name : String)
  /-- An attribute of a resource. -/
  | attribute (resource : String) (path : List AttrStep)
  /-- A parameter of the template. -/
  | parameter (name : String)

namespace Property

instance : Inhabited Property := ⟨.null⟩

/-- The mapping with the given entries. -/
def ofTable (t : Table Property) : Property := .map t.entries

/-- The mapping with one entry. -/
def single (name : String) (value : Property) : Property := .map [(name, value)]

/-- The text of a value that is text. -/
def asString? : Property → Option String
  | .string s => some s
  | _ => none

/-- A number: a whole one if it fits sixty-four bits with a sign. -/
def ofInt (i : Int) : Property :=
  if Binary64.int64Min ≤ i ∧ i ≤ Binary64.int64Max then .int i else .float (Binary64.ofInt i)

/-- The reference that an object with one member stands for, if it is one. -/
def reference? : String → Value → Option Property
  | "get_resource", .string name => some (.resource name)
  | "get_param", .string name => some (.parameter name)
  | "get_attr", .list (.string name :: path) =>
    (path.mapM AttrStep.ofValue?).map (.attribute name)
  | _, _ => none

/-- The reference that the members of an object stand for. -/
def referenceOf? : List (String × Value) → Option Property
  | [(key, arg)] => reference? key arg
  | _ => none

mutual

/-- The property value that a JSON value says. -/
def ofValue : Value → Property
  | .null => .null
  | .bool b => .bool b
  | .int i => ofInt i
  | .float x => .float x
  | .string s => .string s
  | .list xs => .list (ofItems xs)
  | .object ms => (referenceOf? ms).getD (.map (ofMembers ms))

@[inherit_doc ofValue]
def ofItems : List Value → List Property
  | [] => []
  | x :: xs => ofValue x :: ofItems xs

@[inherit_doc ofValue]
def ofMembers : List (String × Value) → List (String × Property)
  | [] => []
  | (k, v) :: ms => (k, ofValue v) :: ofMembers ms

end

mutual

/-- The JSON value of a property value. -/
def toValue : Property → Value
  | .null => .null
  | .bool b => .bool b
  | .int i => .int i
  | .float x => Value.ofFloat x
  | .string s => .string s
  | .list xs => .list (toItems xs)
  | .map es => .object (toMembers es)
  | .resource name => Value.single "get_resource" (.string name)
  | .parameter name => Value.single "get_param" (.string name)
  | .attribute name path =>
    Value.single "get_attr" (.list (.string name :: path.map AttrStep.toValue))

@[inherit_doc toValue]
def toItems : List Property → List Value
  | [] => []
  | x :: xs => toValue x :: toItems xs

@[inherit_doc toValue]
def toMembers : List (String × Property) → List (String × Value)
  | [] => []
  | (k, v) :: es => (k, toValue v) :: toMembers es

end

mutual

/-- The names of the resources that a value refers to, in the order of its leaves. -/
def referenceList : Property → List String
  | .resource name => [name]
  | .attribute name _ => [name]
  | .list xs => referenceListItems xs
  | .map es => referenceListEntries es
  | _ => []

@[inherit_doc referenceList]
def referenceListItems : List Property → List String
  | [] => []
  | x :: xs => referenceList x ++ referenceListItems xs

@[inherit_doc referenceList]
def referenceListEntries : List (String × Property) → List String
  | [] => []
  | (_, v) :: es => referenceList v ++ referenceListEntries es

end

/-- The names of the resources that a value refers to. -/
def references (p : Property) : NameSet := NameSet.ofNames p.referenceList

/-- Texts between commas. -/
def commaSeparated (xs : List String) : String := String.intercalate ", " xs

/-- The numeral of a floating point number in diagnostics: positional between a ten-thousandth and
ten to the sixteenth. -/
def debugLayout : Binary64.Layout := ⟨-3, 16, ""⟩

@[inherit_doc debugLayout]
def debugFloat (x : Binary64) : String :=
  debugLayout.text (fun s => if s then "-inf" else "inf") "NaN" x

mutual

/-- The value in diagnostics. -/
def debug : Property → String
  | .null => "Null"
  | .bool b => "Bool(" ++ (if b then "true" else "false") ++ ")"
  | .int i => "Int(" ++ Numeral.ofInt i ++ ")"
  | .float x => "Float(" ++ debugFloat x ++ ")"
  | .string s => "String(" ++ Quoted.text s ++ ")"
  | .list xs => "List([" ++ commaSeparated (debugItems xs) ++ "])"
  | .map es => "Map(\x7b" ++ commaSeparated (debugEntries es) ++ "\x7d)"
  | .resource name => "GetResource(" ++ Quoted.text name ++ ")"
  | .parameter name => "GetParam(" ++ Quoted.text name ++ ")"
  | .attribute name path =>
    "GetAttr \x7b resource: " ++ Quoted.text name ++ ", path: ["
      ++ commaSeparated (path.map AttrStep.debug) ++ "] \x7d"

@[inherit_doc debug]
def debugItems : List Property → List String
  | [] => []
  | x :: xs => debug x :: debugItems xs

@[inherit_doc debug]
def debugEntries : List (String × Property) → List String
  | [] => []
  | (k, v) :: es => (Quoted.text k ++ ": " ++ debug v) :: debugEntries es

end

end Property

end Provision
