import Provision.Fault
import Provision.Instant

/-!
# The identity service

Whoever calls a service first learns from the identity service where it is, and gets a credential
that is good for a while.
-/

namespace Provision

/-- A token, and when it expires, if it does. -/
structure Credential where
  token : String
  expiresAt : Option Instant
  deriving DecidableEq

namespace Credential

/-- Whether the token has expired, or will within `skew` seconds. -/
def isStale (c : Credential) (now : Instant) (skew : Int) : Bool :=
  match c.expiresAt with
  | some expiry => (expiry.earlier skew).notAfter now
  | none => false

end Credential

/-- The calls of an identity service. -/
structure Identity (m : Type → Type) where
  /-- The address of a type of service, in a region if one is named. -/
  endpoint : String → Option String → ExceptT ServiceError m String
  credential : ExceptT ServiceError m Credential

end Provision
