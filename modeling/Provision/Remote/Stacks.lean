import Provision.Remote
import Provision.Orchestration

/-!
# The orchestration service on the network

Stacks and their resources are found under paths. What belongs to a stack is found under its name
and its identifier; the name is looked up once and then kept.
-/

namespace Provision

/-- What the service says of a stack. -/
structure StackBody where
  id : String
  name : String
  status : String
  statusReason : Option String
  outputs : List StackOutput

namespace StackBody

/-- The output that a document says. -/
def outputOfNode? (n : Node) : Option StackOutput := do
  let fs ← n.fields? ["output_key", "output_value", "description"]
  some {
    key := ← fs.required "output_key" Node.text?
    value := ← fs.withDefault "output_value" .null Node.value?
    description := ← fs.optional "description" Node.text? }

/-- The stack that a document says. -/
def ofNode? (n : Node) : Option StackBody := do
  let fs ← n.fields? ["stack"]
  fs.required "stack" fun n => do
    let fs ← n.fields? ["id", "stack_name", "stack_status", "stack_status_reason", "outputs"]
    some {
      id := ← fs.required "id" Node.text?
      name := ← fs.required "stack_name" Node.text?
      status := ← fs.required "stack_status" Node.text?
      statusReason := ← fs.optional "stack_status_reason" Node.text?
      outputs := (← fs.optional "outputs" (Node.list? outputOfNode?)).getD [] }

/-- The stack, if its status can be read. -/
def deployed (s : StackBody) : Except ServiceError DeployedStack :=
  match StackStatus.ofText? s.status with
  | some status => .ok ⟨s.id, s.name, status, s.statusReason, s.outputs⟩
  | none => .error (.decode (StackStatus.unrecognised s.status))

/-- The path under which everything that belongs to the stack is found. -/
def path (s : StackBody) : String := "stacks/" ++ s.name ++ "/" ++ s.id

end StackBody

namespace Remote

/-- The identifier of a new stack that a document says. -/
def createdOfNode? (n : Node) : Option String := do
  let fs ← n.fields? ["stack"]
  fs.required "stack" fun n => do
    let fs ← n.fields? ["id"]
    fs.required "id" Node.text?

/-- The resource that a document says. -/
def resourceOfNode? (n : Node) : Option ResourceDetail := do
  let fs ← n.fields?
    ["resource_name", "physical_resource_id", "resource_type", "resource_status", "attributes"]
  some {
    name := ← fs.required "resource_name" Node.text?
    physicalId := ← fs.withDefault "physical_resource_id" "" Node.text?
    type := ← fs.required "resource_type" Node.text?
    status := ← fs.required "resource_status" Node.text?
    attributes := ← fs.withDefault "attributes" .empty (Node.table? Node.value?) }

/-- The event that a document says; a time that cannot be read is no time. -/
def eventOfNode? (n : Node) : Option StackEvent := do
  let fs ← n.fields?
    ["id", "resource_name", "resource_status", "resource_status_reason", "event_time"]
  let time ← fs.optional "event_time" Node.text?
  some {
    id := ← fs.required "id" Node.text?
    resource := ← fs.required "resource_name" Node.text?
    status := ← fs.required "resource_status" Node.text?
    statusReason := ← fs.optional "resource_status_reason" Node.text?
    time := time.bind Instant.ofTimestamp? }

/-- The one field of a document. -/
def fieldOfNode? (name : String) (f : Node → Option α) (n : Node) : Option α := do
  let fs ← n.fields? [name]
  fs.required name f

/-- The metadata that a document says. -/
def metadataOfNode? (n : Node) : Option (Table Value) := do
  let fs ← n.fields? ["metadata"]
  fs.withDefault "metadata" .empty (Node.table? Node.value?)

/-- The resource type that a document says. -/
def schemaOfNode? (n : Node) : Option TypeSchema := do
  let fs ← n.fields? ["resource_type", "properties"]
  let type ← fs.required "resource_type" Node.text?
  let properties ← fs.withDefault "properties" .empty (Node.table? Node.value?)
  some ⟨type, properties.map fun _ _ => ()⟩

/-- A submission as the service takes it. -/
def submissionBody (s : Submission) : Value :=
  .ofMembers
    ([("stack_name", .string s.stackName),
      ("template", s.template),
      ("files", .ofTextTable s.files),
      ("parameters", .ofTable s.parameters),
      ("disable_rollback", .bool s.disableRollback)]
      ++ (match s.timeoutMins with
        | some mins => [("timeout_mins", .ofNat mins)]
        | none => []))

/-- What the catalog calls orchestration services. -/
def orchestrationService : String := "orchestration"

variable {m : Type → Type} [Monad m]

/-- How the orchestration service is reached. -/
structure StackClient (m : Type → Type) where
  net : Network m
  identity : Identity (Remote m)
  region : Option String

namespace StackClient

variable (c : StackClient m)

/-- Sends a request. -/
def send (method : Method) (path : String) (content : Option Content) :
    ExceptT ServiceError (Remote m) Response :=
  Remote.call c.net c.identity orchestrationService c.region method path content

/-- Sends a request that has to be granted. -/
def sendGranted (method : Method) (path what : String) (content : Option Content) :
    ExceptT ServiceError (Remote m) Response := do
  let response ← c.send method path content
  Reply.lift (response.granted what)

/-- Reads what is found under a path. -/
def read (path what : String) (f : Node → Option α) : ExceptT ServiceError (Remote m) α := do
  let response ← c.sendGranted .get path what none
  Reply.lift (response.decode f)

/-- Reads what the service says of a stack. -/
def fetch (id : String) : ExceptT ServiceError (Remote m) StackBody :=
  c.read ("stacks/" ++ id) ("stack " ++ id) StackBody.ofNode?

/-- Keeps the path of a stack. -/
def keepPath (id path : String) : ExceptT ServiceError (Remote m) Unit :=
  modify fun k => { k with stackPaths := k.stackPaths.put id path }

/-- The path of what belongs to a stack: as kept, or else looked up and kept. -/
def pathOf (id : String) : ExceptT ServiceError (Remote m) String := do
  match (← get).stackPaths.get? id with
  | some path => return path
  | none =>
    let stack ← c.fetch id
    keepPath id stack.path
    return stack.path

/-- The path of a resource. -/
def resourcePath (id name : String) : ExceptT ServiceError (Remote m) String := do
  return (← c.pathOf id) ++ "/resources/" ++ name

/-- Has a stack created. -/
def submit (s : Submission) : ExceptT ServiceError (Remote m) String := do
  let response ← c.sendGranted .post "stacks" "stack create" (some (.json (submissionBody s)))
  let id ← Reply.lift (response.decode createdOfNode?)
  keepPath id ("stacks/" ++ s.stackName ++ "/" ++ id)
  return id

/-- The service. -/
def orchestration : Orchestration (Remote m) where
  submit := c.submit
  stack id := do
    let stack ← c.fetch id
    Reply.lift stack.deployed
  resources id depth := do
    let path ← c.pathOf id
    let listed ← c.read (path ++ "/resources?nested_depth=" ++ Numeral.ofNat depth)
      ("resources of " ++ id) (fieldOfNode? "resources" (Node.list? resourceOfNode?))
    return listed.map ResourceDetail.summary
  resource id name := do
    c.read (← c.resourcePath id name) ("resource " ++ name ++ " of " ++ id)
      (fieldOfNode? "resource" resourceOfNode?)
  metadata id name := do
    c.read ((← c.resourcePath id name) ++ "/metadata") ("metadata of " ++ name ++ " in " ++ id)
      metadataOfNode?
  signal id name := do
    let _ ← c.sendGranted .post ((← c.resourcePath id name) ++ "/signal")
      ("signal " ++ name ++ " of " ++ id) none
  events id name limit := do
    c.read
      ((← c.resourcePath id name) ++ "/events?sort_keys=event_time&sort_dir=desc&limit="
        ++ Numeral.ofNat limit)
      ("events of " ++ name ++ " in " ++ id) (fieldOfNode? "events" (Node.list? eventOfNode?))
  delete id := do
    let _ ← c.sendGranted .delete (← c.pathOf id) ("stack " ++ id) none
  schema type :=
    c.read ("resource_types/" ++ type) ("resource type " ++ type) schemaOfNode?

end StackClient

end Remote

end Provision
