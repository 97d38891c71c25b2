import Provision.Descriptor
import Provision.Property

/-!
# Substitution

A leaf is resolved by putting a value in place of every input it refers to: the value that the
parameters have under the name of the input, or else the default that the descriptor declares.
What is put in place is not looked at again.

`Substitution.prepare` checks a descriptor up front, so that resolving its leaves cannot fail.
-/

namespace Provision

/-- Values by the name of the input that they are for. -/
abbrev Parameters := Table Value

/-- Where the values of inputs come from. -/
structure Substitution where
  parameters : Option Parameters
  inputs : Table InputDecl

namespace Substitution

/-- The value of an input. -/
def lookup (s : Substitution) (name : String) : Except Fault Value :=
  match s.parameters.bind fun p => p.get? name with
  | some v => .ok v
  | none =>
    match (s.inputs.get? name).bind InputDecl.default? with
    | some v => .ok v
    | none => .error (.unresolvedInput name)

/-- Checks that every one of the names has a value. -/
def lookupAll (s : Substitution) : List String → Except Fault Unit
  | [] => .ok ()
  | name :: names => do
    let _ ← s.lookup name
    lookupAll s names

/-- The substitution of a descriptor, if every input it refers to has a value. A descriptor that
refers to inputs has to come with parameters, even if all inputs have defaults. -/
def prepare (d : Descriptor) (parameters : Option Parameters) : Except Fault Substitution :=
  let s : Substitution := ⟨parameters, d.inputs⟩
  match parameters, d.referencedInputs.names with
  | none, first :: _ => .error (.missingParameter first)
  | _, names => do
    s.lookupAll names
    return s

mutual

/-- The value of a leaf. -/
def resolve (s : Substitution) : Leaf → Except Fault Value
  | .null => .ok .null
  | .bool b => .ok (.bool b)
  | .int i => .ok (.int i)
  | .float x => .ok (Value.ofFloat x)
  | .string t => .ok (.string t)
  | .list xs => do return .list (← resolveItems s xs)
  | .map es => do return .object (← resolveEntries s es)
  | .input name => s.lookup name

/-- The values of leaves in order. -/
def resolveItems (s : Substitution) : List Leaf → Except Fault (List Value)
  | [] => .ok []
  | x :: xs => do
    let v ← resolve s x
    let vs ← resolveItems s xs
    return v :: vs

/-- The values of leaves under their names. -/
def resolveEntries (s : Substitution) :
    List (String × Leaf) → Except Fault (List (String × Value))
  | [] => .ok []
  | (k, x) :: es => do
    let v ← resolve s x
    let vs ← resolveEntries s es
    return (k, v) :: vs

end

/-- The value of a leaf that may be missing. -/
def resolveOption (s : Substitution) : Option Leaf → Except Fault (Option Value)
  | none => .ok none
  | some l => do return some (← s.resolve l)

/-- The values of a table of leaves. -/
def resolveTable (s : Substitution) (t : Table Leaf) : Except Fault (Table Value) :=
  t.traverse fun _ l => s.resolve l

/-- The values of a table of leaves, as properties. -/
def resolveProperties (s : Substitution) (t : Table Leaf) : Except Fault (Table Property) := do
  return (← s.resolveTable t).map fun _ v => Property.ofValue v

end Substitution

end Provision
