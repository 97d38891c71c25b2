import Provision.Substitution

/-!
# Parameters

The parameters of a deployment are a mapping from the names of inputs to values.
-/

namespace Provision.Parameters

/-- What kind of value something is that should have been a mapping. -/
def kindOf : Value → String
  | .null => "nothing"
  | .bool _ => "a boolean"
  | .int _ => "a number"
  | .float _ => "a number"
  | .string _ => "a string"
  | .list _ => "a list"
  | .object _ => "a mapping"

/-- The parameters that a document says; a document that is no value has no kind either. -/
def ofNode (n : Option Node) : Except Fault Parameters :=
  match n.bind Node.value? with
  | none => .error (.malformedParameters none)
  | some (.object ms) => .ok (.ofList ms)
  | some v => .error (.malformedParameters (some (kindOf v)))

end Provision.Parameters
