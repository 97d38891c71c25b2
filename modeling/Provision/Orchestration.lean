import Provision.Fault
import Provision.Compile.Compatibility
import Provision.Stack.Report
import Provision.Stack.Submission

/-!
# The orchestration service

What can be asked of the service that creates stacks and looks after them. Every call may fail; what
else a call does is up to the monad.
-/

namespace Provision

/-- The calls of an orchestration service. -/
structure Orchestration (m : Type → Type) where
  /-- Has a stack created and tells its identifier. -/
  submit : Submission → ExceptT ServiceError m String
  /-- Looks at a stack. -/
  stack : String → ExceptT ServiceError m DeployedStack
  /-- Lists the resources of a stack, and of the stacks nested in it down to a depth. -/
  resources : String → Nat → ExceptT ServiceError m (List ResourceSummary)
  /-- Reads a resource of a stack. -/
  resource : String → String → ExceptT ServiceError m ResourceDetail
  /-- Reads the metadata of a resource of a stack. -/
  metadata : String → String → ExceptT ServiceError m (Table Value)
  /-- Signals a resource of a stack. -/
  signal : String → String → ExceptT ServiceError m Unit
  /-- Lists the newest events of a resource of a stack, the newest first, up to a number. -/
  events : String → String → Nat → ExceptT ServiceError m (List StackEvent)
  /-- Has a stack deleted. -/
  delete : String → ExceptT ServiceError m Unit
  /-- Describes a resource type. -/
  schema : String → ExceptT ServiceError m TypeSchema

/-- The properties that the service supports. -/
def Orchestration.catalog {m : Type → Type} [Monad m] (o : Orchestration m) : Catalog m where
  supported type := (TypeSchema.properties <$> o.schema type).run

/-- A call whose failure is a fault. -/
def ServiceError.asFault {m : Type → Type} [Monad m] (x : ExceptT ServiceError m α) :
    ExceptT Fault m α :=
  x.adapt Fault.service

end Provision
