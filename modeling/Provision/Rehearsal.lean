import Provision.Lifecycle.Scale

/-!
# Rehearsals

An orchestration service that answers from a script, so that lifecycles can be gone through without
a remote service. Every look at a stack takes the next answer from the script of the stack; the last
answer stays. Nothing happens of itself: what the service says changes only through its calls and
through whoever writes the script.
-/

namespace Provision

/-- A scripted answer to a look at a stack. -/
inductive Poll where
  | status (status : StackStatus) (reason : Option String)
  /-- The connection breaks. -/
  | unreachable
  /-- The stack does not exist. -/
  | gone

/-- A stack with its script. -/
structure RehearsedStack where
  name : String
  polls : List Poll
  /-- The script that takes over once the stack is to be deleted; a stack without one vanishes. -/
  deletePolls : Option (List Poll)
  /-- How often the stack has been looked at. -/
  looks : Nat
  outputs : List StackOutput

/-- A stack without a script. -/
def RehearsedStack.blank : RehearsedStack := ⟨"", [], none, 0, []⟩

/-- Everything that a rehearsed service knows. Resources and what belongs to them are filed under
the identifier of the stack and then under their own name. -/
structure Rehearsal where
  lastNumber : Nat
  /-- Why submissions are refused, if they are. -/
  rejection : Option String
  submissions : List Submission
  known : Table RehearsedStack
  resources : Table (Table ResourceDetail)
  metadata : Table (Table (Table Value))
  /-- The events of resources, the newest first. -/
  events : Table (Table (List StackEvent))
  /-- The event that a resource will have when it is next signalled. -/
  onSignal : Table (Table StackEvent)
  /-- How many reads of events are going to fail. -/
  failingEventReads : Nat
  /-- The resources signalled so far, with their stacks. -/
  signals : List (String × String)
  schemas : Table NameSet
  schemaReads : Nat

namespace Table

variable {α : Type}

/-- What is filed under a name in the table under another. -/
def get₂? (t : Table (Table α)) (outer inner : String) : Option α :=
  (t.get? outer).bind fun u => u.get? inner

/-- Files a value under a name in the table under another. -/
def put₂ (t : Table (Table α)) (outer inner : String) (value : α) : Table (Table α) :=
  t.put outer (((t.get? outer).getD .empty).put inner value)

/-- Drops what is filed under a name in the table under another. -/
def erase₂ (t : Table (Table α)) (outer inner : String) : Table (Table α) :=
  match t.get? outer with
  | some u => t.put outer (u.erase inner)
  | none => t

end Table

namespace Rehearsal

/-- A service that knows nothing yet. -/
def blank : Rehearsal where
  lastNumber := 0
  rejection := none
  submissions := []
  known := .empty
  resources := .empty
  metadata := .empty
  events := .empty
  onSignal := .empty
  failingEventReads := 0
  signals := []
  schemas := .empty
  schemaReads := 0

/-- The properties of ports on an endpoint of today. -/
def portProperties : List String :=
  ["network", "fixed_ips", "port_security_enabled", "binding:vnic_type", "value_specs",
   "security_groups", "mac_address"]

/-! ### Writing the script -/

/-- Changes a stack; an unknown one is there from then on. -/
def changeStack (r : Rehearsal) (id : String) (f : RehearsedStack → RehearsedStack) : Rehearsal :=
  { r with known := r.known.put id (f ((r.known.get? id).getD .blank)) }

/-- Scripts what looks at a stack show. -/
def scriptPolls (r : Rehearsal) (id : String) (polls : List Poll) : Rehearsal :=
  r.changeStack id fun s => { s with polls := polls }

/-- Scripts what looks at a stack show once it is to be deleted. -/
def scriptDeletePolls (r : Rehearsal) (id : String) (polls : List Poll) : Rehearsal :=
  r.changeStack id fun s => { s with deletePolls := some polls }

/-- Gives a stack its outputs. -/
def setOutputs (r : Rehearsal) (id : String) (outputs : List (String × Value)) : Rehearsal :=
  r.changeStack id fun s => { s with outputs := outputs.map fun (k, v) => ⟨k, v, none⟩ }

/-- Gives a stack a resource. -/
def addResource (r : Rehearsal) (id : String) (detail : ResourceDetail) : Rehearsal :=
  { r with resources := r.resources.put₂ id detail.name detail }

/-- Gives a resource its metadata. -/
def setMetadata (r : Rehearsal) (id resource : String) (metadata : Table Value) : Rehearsal :=
  { r with metadata := r.metadata.put₂ id resource metadata }

/-- An event that says what it is about. -/
def event (resource id status : String) : StackEvent where
  id := id
  resource := resource
  status := status
  statusReason := some (resource ++ " " ++ status)
  time := none

/-- Makes an event the newest of a resource. -/
def addEvent (r : Rehearsal) (id resource : String) (e : StackEvent) : Rehearsal :=
  { r with events := r.events.put₂ id resource (e :: (r.events.get₂? id resource).getD []) }

/-- Has an event happen when a resource is next signalled. -/
def setOnSignal (r : Rehearsal) (id resource : String) (e : StackEvent) : Rehearsal :=
  { r with onSignal := r.onSignal.put₂ id resource e }

/-- How often a stack has been looked at. -/
def looks (r : Rehearsal) (id : String) : Nat := ((r.known.get? id).map RehearsedStack.looks).getD 0

/-! ### Answering -/

/-- The next answer of a script, and the script after it. A script without answers says that the
stack is created. -/
def nextPoll : List Poll → Poll × List Poll
  | [] => (.status ⟨.create, .complete⟩ none, [])
  | [p] => (p, [p])
  | p :: ps => (p, ps)

/-- What is said of a stack that does not exist. -/
def noStack (id : String) : ServiceError := .notFound ("stack " ++ id)

/-- Takes a submission in. -/
def submit (s : Submission) (r : Rehearsal) : Except ServiceError String × Rehearsal :=
  match r.rejection with
  | some reason => (.error (.rejected 400 reason), r)
  | none =>
    let id := "stack-" ++ Numeral.ofNat (r.lastNumber + 1)
    (.ok id,
      { (r.changeStack id fun stack => { stack with name := s.stackName }) with
        lastNumber := r.lastNumber + 1
        submissions := r.submissions ++ [s] })

/-- What an answer of the script shows of a stack. -/
def pollReply (id : String) (stack : RehearsedStack) : Poll → Except ServiceError DeployedStack
  | .status status reason => .ok ⟨id, stack.name, status, reason, stack.outputs⟩
  | .unreachable => .error (.transport "connection reset by peer")
  | .gone => .error (noStack id)

/-- Answers a look at a stack. -/
def stack (id : String) (r : Rehearsal) : Except ServiceError DeployedStack × Rehearsal :=
  match r.known.get? id with
  | none => (.error (noStack id), r)
  | some stack =>
    let (poll, polls) := nextPoll stack.polls
    (pollReply id stack poll,
      { r with known := r.known.put id { stack with polls := polls, looks := stack.looks + 1 } })

/-- Lists the resources of a stack. -/
def resourcesOf (id : String) (r : Rehearsal) : Except ServiceError (List ResourceSummary) :=
  match r.resources.get? id with
  | some known => .ok (known.values.map ResourceDetail.summary)
  | none => if r.known.contains id then .ok [] else .error (noStack id)

/-- Reads a resource. -/
def resource (id name : String) (r : Rehearsal) : Except ServiceError ResourceDetail :=
  match r.resources.get₂? id name with
  | some detail => .ok detail
  | none => .error (.notFound ("resource " ++ name ++ " of " ++ id))

/-- Takes note of a signal. -/
def signal (id name : String) (r : Rehearsal) : Rehearsal :=
  let r := { r with signals := r.signals ++ [(id, name)] }
  match r.onSignal.get₂? id name with
  | some e => { r.addEvent id name e with onSignal := r.onSignal.erase₂ id name }
  | none => r

/-- Lists events. -/
def eventsOf (id name : String) (limit : Nat) (r : Rehearsal) :
    Except ServiceError (List StackEvent) × Rehearsal :=
  match r.failingEventReads with
  | 0 => (.ok (((r.events.get₂? id name).getD []).take limit), r)
  | n + 1 => (.error (.transport "gateway timeout"), { r with failingEventReads := n })

/-- Deletes a stack. -/
def delete (id : String) (r : Rehearsal) : Except ServiceError Unit × Rehearsal :=
  match r.known.get? id with
  | none => (.error (noStack id), r)
  | some stack =>
    match stack.deletePolls with
    | some polls =>
      let stack := { stack with polls := polls, deletePolls := none }
      (.ok (), { r with known := r.known.put id stack })
    | none => (.ok (), { r with known := r.known.erase id })

/-- Describes a resource type. -/
def schema (type : String) (r : Rehearsal) : TypeSchema × Rehearsal :=
  let properties := match r.schemas.get? type with
    | some properties => properties
    | none => if type = portType then .ofNames portProperties else .empty
  (⟨type, properties⟩, { r with schemaReads := r.schemaReads + 1 })

/-- The service that answers from the script. -/
def service : Orchestration (StateM Rehearsal) where
  submit s := ExceptT.mk (submit s)
  stack id := ExceptT.mk (stack id)
  resources id _ := ExceptT.mk fun r => (resourcesOf id r, r)
  resource id name := ExceptT.mk fun r => (resource id name r, r)
  metadata id name := ExceptT.mk fun r => (.ok ((r.metadata.get₂? id name).getD .empty), r)
  signal id name := ExceptT.mk fun r => (.ok (), signal id name r)
  events id name limit := ExceptT.mk (eventsOf id name limit)
  delete id := ExceptT.mk (delete id)
  schema type := ExceptT.mk fun r =>
    let (s, r) := schema type r
    (.ok s, r)

/-- The lifecycles of rehearsed stacks, without pauses. -/
def lifecycle (settings : LifecycleSettings) : Lifecycle (StateM Rehearsal) where
  service := service
  pause _ := pure ()
  settings := settings

end Rehearsal

end Provision
