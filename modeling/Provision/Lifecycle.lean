import Provision.Orchestration
import Provision.Graph.Template
import Provision.Compile.Port
import Provision.Scaling
import Provision.Settings

/-!
# Lifecycles

A stack is created, waited for, and deleted by way of a service that takes its time. Nothing is kept
between calls: whoever waits looks at the stack at fixed intervals, at most as often as the budget
allows. A look that fails for want of a connection counts as a look that settles nothing. A budget
that runs out and a failure that the service reports are different faults, for what timed out may
still come about.
-/

namespace Provision

/-- What one look at a stack shows. -/
inductive Observation where
  | status (stack : DeployedStack)
  /-- The stack does not exist. -/
  | gone
  /-- The look failed for another reason. -/
  | unreachable (error : ServiceError)

namespace Observation

/-- What the answer of the service shows. -/
def ofReply : Except ServiceError DeployedStack → Observation
  | .ok stack => .status stack
  | .error e => if e.isNotFound then .gone else .unreachable e

end Observation

/-- How a wait ended. -/
inductive Wait where
  | settled (stack : DeployedStack)
  | gone
  /-- The budget ran out; `last` is the last status seen. -/
  | exhausted (last : Option StackStatus)

/-- The addresses of the managed components of a stack; of several outputs for one component the
last one counts. -/
def DeployedStack.managementOutputs (s : DeployedStack) : Table Value :=
  .ofList (s.outputs.filterMap fun o => (managed? o.key).map fun component => (component, o.value))

/-- Addresses by component. -/
abbrev Endpoints := Table (List Value)

namespace Endpoints

/-- Adds addresses of a component after those that are there. -/
def add (e : Endpoints) (component : String) (addresses : List Value) : Endpoints :=
  e.put component ((e.get? component).getD [] ++ addresses)

/-- Adds the management attributes of a resource. -/
def addAttributes (e : Endpoints) (attributes : Table Value) : Endpoints :=
  attributes.entries.foldl (fun e (key, value) =>
    match managed? key with
    | some component => e.add component [value]
    | none => e) e

/-- Adds what was read of the members of a group, up to the first that could not be read. -/
def addMembers (e : Endpoints) :
    List (Except ServiceError ResourceDetail) → Except ServiceError Endpoints
  | [] => .ok e
  | .error err :: _ => .error err
  | .ok detail :: rest => (e.addAttributes detail.attributes).addMembers rest

end Endpoints

/-- An entry of an inventory. -/
structure InventoryEntry where
  physicalId : String
  type : String
  deriving DecidableEq

/-- The entry in JSON. -/
def InventoryEntry.toValue (e : InventoryEntry) : Value :=
  .ofMembers [("physical_id", .string e.physicalId), ("resource_type", .string e.type)]

/-- The service that stacks are driven with, what it is to pause for some milliseconds, and the
settings. -/
structure Lifecycle (m : Type → Type) where
  service : Orchestration m
  pause : Nat → m Unit
  settings : LifecycleSettings

namespace Lifecycle

variable {m : Type → Type} [Monad m] (l : Lifecycle m)

/-- Looks at a stack once. -/
def look (id : String) : m Observation := Observation.ofReply <$> (l.service.stack id).run

/-- Pauses if any looks are left. -/
def pauseBefore (intervalMs left : Nat) : m Unit :=
  if left = 0 then pure () else l.pause intervalMs

/-- Looks at a stack so many times, with a pause between two looks. -/
def observe (id : String) (intervalMs : Nat) : Nat → m (List Observation)
  | 0 => pure []
  | n + 1 => do
    let o ← l.look id
    l.pauseBefore intervalMs n
    return o :: (← observe id intervalMs n)

/-- Looks at a stack until its status has settled, at most so many times. `last` is the last status
seen so far. -/
def awaitSettled (settled : StackStatus → Bool) (id : String) (intervalMs : Nat) :
    Nat → Option StackStatus → m Wait
  | 0, last => pure (.exhausted last)
  | n + 1, last => do
    match ← l.look id with
    | .gone => return .gone
    | .status stack =>
      if settled stack.status then return .settled stack
      l.pauseBefore intervalMs n
      awaitSettled settled id intervalMs n (some stack.status)
    | .unreachable _ =>
      l.pauseBefore intervalMs n
      awaitSettled settled id intervalMs n last

/-- Has a graph created as a stack and tells its identifier. If the service refuses, nothing has
been created. -/
def create (name : String) (graph : ResourceGraph) : ExceptT Fault m String :=
  let submission := { graph.toSubmission name with
    timeoutMins := l.settings.timeoutMins
    disableRollback := l.settings.disableRollback }
  (l.service.submit submission).adapt fun e => .submissionRejected e.message

/-- Waits until a stack is created. -/
def awaitCreated (id : String) (budget : Budget) : ExceptT Fault m DeployedStack := do
  match ← l.awaitSettled (fun s => !s.isInProgress) id budget.intervalMs budget.retries none with
  | .settled stack =>
    if stack.status.isComplete .create then return stack
    else throw (.createFailed id (stack.statusReason.getD stack.status.text))
  | .gone => throw (.createFailed id ("stack " ++ id ++ " disappeared while being created"))
  | .exhausted last => throw (.createTimedOut id last)

/-- Waits until a stack is created and tells the addresses of its managed components. -/
def awaitAddresses (id : String) (budget : Budget) : ExceptT Fault m (Table Value) :=
  DeployedStack.managementOutputs <$> l.awaitCreated id budget

/-- Reads every resource of a listing, whatever becomes of the others. -/
def readAll (id : String) : List ResourceSummary → m (List (Except ServiceError ResourceDetail))
  | [] => pure []
  | r :: rs => do
    let detail ← (l.service.resource id r.name).run
    return detail :: (← readAll id rs)

/-- Adds the addresses in every member of a group. -/
def addGroup (id group : String) (found : Endpoints) : ExceptT ServiceError m Endpoints := do
  let nested ← l.service.resource id group
  let members ← l.service.resources nested.physicalId 0
  let details ← l.readAll nested.physicalId members
  ExceptT.mk (pure (found.addMembers details))

/-- Adds the addresses in every member of several groups. -/
def addGroups (id : String) : List String → Endpoints → ExceptT ServiceError m Endpoints
  | [], found => pure found
  | group :: groups, found => do
    let found ← l.addGroup id group found
    addGroups id groups found

/-- Waits until a stack is created and tells the addresses of its managed components, those of the
stack itself before those of the members of its groups. -/
def awaitGroupedAddresses (id : String) (bindings : Bindings) (budget : Budget) :
    ExceptT Fault m Endpoints := do
  let stack ← l.awaitCreated id budget
  let own : Endpoints := stack.managementOutputs.map fun _ v => [v]
  let members ← (l.addGroups id bindings.values .empty).adapt Fault.service
  return members.entries.foldl (fun found (name, addresses) => found.add name addresses) own

/-- Has a stack deleted; one that does not exist counts as deleted. -/
def delete (id : String) : ExceptT Fault m Unit := do
  match ← (l.service.delete id).run with
  | .ok () => return ()
  | .error e => if e.isNotFound then return () else throw (.service e)

/-- Whether a deletion has come to an end. -/
def deletionSettled (s : StackStatus) : Bool := s.action = .delete && !s.isInProgress

/-- Waits until a stack is deleted. -/
def awaitDeleted (id : String) (budget : Budget) : ExceptT Fault m Unit := do
  match ← l.awaitSettled deletionSettled id budget.intervalMs budget.retries none with
  | .gone => return ()
  | .settled stack =>
    if stack.status.state = .complete then return ()
    else throw (.deleteFailed id (stack.statusReason.getD stack.status.text))
  | .exhausted last => throw (.deleteTimedOut id last)

/-- How deep an inventory goes into nested stacks. -/
def inventoryDepth : Nat := 2

/-- The resources of a stack by name; of several of one name the last one listed counts. -/
def inventory (id : String) : ExceptT Fault m (Table InventoryEntry) := do
  let listed ← (l.service.resources id inventoryDepth).adapt Fault.service
  return .ofList (listed.map fun r => (r.name, ⟨r.physicalId, r.type⟩))

end Lifecycle

end Provision
