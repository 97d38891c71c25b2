import Provision.Graph

/-!
# Property compatibility

Older endpoints do not accept every property. One that the endpoint does not support is moved into
a mapping that the endpoint passes through as it is. What the endpoint supports is asked for once
per resource type and remembered for as long as one compilation lasts.
-/

namespace Provision

/-- A property that some endpoints do not accept, and the one that passes it through. -/
structure Fallback where
  type : String
  property : String
  passthrough : String
  deriving DecidableEq

/-- Every property with a fallback. -/
def fallbacks : List Fallback :=
  [⟨"OS::Neutron::Port", "port_security_enabled", "value_specs"⟩]

/-- What an endpoint answers when asked for the properties of a resource type. -/
structure Catalog (m : Type → Type) where
  supported : String → m (Except ServiceError NameSet)

/-- The properties already asked for, by resource type. -/
abbrev SupportMemo := Table NameSet

namespace SupportMemo

variable {m : Type → Type} [Monad m]

/-- The properties of a type: as remembered, or else asked for and remembered. -/
def supported (memo : SupportMemo) (catalog : Catalog m) (type : String) :
    m (Except ServiceError (NameSet × SupportMemo)) :=
  match memo.get? type with
  | some properties => pure (.ok (properties, memo))
  | none => do
    match ← catalog.supported type with
    | .ok properties => return .ok (properties, memo.put type properties)
    | .error e => return .error e

end SupportMemo

/-- What is left of a resource and of the memo, and the fault that ended the work, if one did. -/
structure Adapted where
  resource : Resource
  memo : SupportMemo
  fault : Option Fault

namespace Resource

/-- Moves a property under its passthrough. A passthrough that holds no mapping takes nothing in,
and the property is gone. -/
def nest (name : String) (f : Fallback) (value : Property) (r : Resource) :
    Resource × Option Fault :=
  let r := { r with properties := r.properties.erase f.property }
  match r.properties.get? f.passthrough with
  | none => (r.set f.passthrough (.single f.property value), none)
  | some (.map es) => (r.set f.passthrough (.map (Entries.put f.property value es)), none)
  | some other =>
    (r, some (.invalidCapability name (.passthroughNoMapping f.passthrough other.debug)))

/-- Whether a fallback is for something that the resource has, and for what. -/
def concern? (r : Resource) (f : Fallback) : Option Property :=
  if r.type = f.type then r.properties.get? f.property else none

variable {m : Type → Type} [Monad m]

/-- Adapts the resource by the fallbacks in turn. -/
def adaptBy (catalog : Catalog m) (name : String) :
    List Fallback → Resource → SupportMemo → m Adapted
  | [], r, memo => pure ⟨r, memo, none⟩
  | f :: fs, r, memo =>
    match r.concern? f with
    | none => adaptBy catalog name fs r memo
    | some value => do
      match ← memo.supported catalog f.type with
      | .error e => return ⟨r, memo, some (.service e)⟩
      | .ok (properties, memo) =>
        if properties.contains f.property then adaptBy catalog name fs r memo
        else
          match r.nest name f value with
          | (r, none) => adaptBy catalog name fs r memo
          | (r, some fault) => return ⟨r, memo, some fault⟩

/-- Adapts the resource to the endpoint. -/
def adapt (catalog : Catalog m) (name : String) (r : Resource) (memo : SupportMemo) : m Adapted :=
  adaptBy catalog name fallbacks r memo

end Resource

end Provision
