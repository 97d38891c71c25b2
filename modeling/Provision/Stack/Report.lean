import Provision.Document
import Provision.Instant.Reader
import Provision.Stack.Status

/-!
# Reports on stacks

What the orchestration service tells about a stack: its status and outputs, its resources, and the
events of a resource.
-/

namespace Provision

/-- An output of a stack. -/
structure StackOutput where
  key : String
  value : Value
  description : Option String

/-- A stack as last seen. -/
structure DeployedStack where
  id : String
  name : String
  status : StackStatus
  /-- What the service says about how the status came to be. -/
  statusReason : Option String
  outputs : List StackOutput

/-- A resource in the listing of a stack. -/
structure ResourceSummary where
  name : String
  physicalId : String
  type : String
  status : String

/-- A resource with its attributes. -/
structure ResourceDetail where
  name : String
  physicalId : String
  type : String
  status : String
  attributes : Table Value

/-- A change of the state of a resource. -/
structure StackEvent where
  id : String
  resource : String
  status : String
  statusReason : Option String
  time : Option Instant

/-- The properties that a resource type accepts on one endpoint. -/
structure TypeSchema where
  type : String
  properties : NameSet

namespace StackOutput

/-- The output in JSON. -/
def toValue (o : StackOutput) : Value :=
  .ofMembers
    [("key", .string o.key), ("value", o.value), ("description", .ofOptionalText o.description)]

/-- The output that a document says. -/
def ofNode? (n : Node) : Option StackOutput := do
  let fs ← n.fields? ["key", "value", "description"]
  some {
    key := ← fs.required "key" Node.text?
    value := ← fs.required "value" Node.value?
    description := ← fs.optional "description" Node.text? }

end StackOutput

namespace StackStatus

/-- The status in JSON is its text on the wire. -/
def toValue (s : StackStatus) : Value := .string s.text

/-- The status that a document says. -/
def ofNode? (n : Node) : Option StackStatus := n.text? >>= ofText?

end StackStatus

namespace DeployedStack

/-- The stack in JSON. -/
def toValue (s : DeployedStack) : Value :=
  .ofMembers
    [("id", .string s.id),
     ("name", .string s.name),
     ("status", s.status.toValue),
     ("status_reason", .ofOptionalText s.statusReason),
     ("outputs", .list (s.outputs.map StackOutput.toValue))]

/-- The stack that a document says. -/
def ofNode? (n : Node) : Option DeployedStack := do
  let fs ← n.fields? ["id", "name", "status", "status_reason", "outputs"]
  some {
    id := ← fs.required "id" Node.text?
    name := ← fs.required "name" Node.text?
    status := ← fs.required "status" StackStatus.ofNode?
    statusReason := ← fs.optional "status_reason" Node.text?
    outputs := ← fs.withDefault "outputs" [] (Node.list? StackOutput.ofNode?) }

end DeployedStack

/-- The resource in JSON. -/
def ResourceSummary.toValue (r : ResourceSummary) : Value :=
  .ofMembers
    [("name", .string r.name),
     ("physical_id", .string r.physicalId),
     ("resource_type", .string r.type),
     ("status", .string r.status)]

namespace ResourceDetail

/-- What the listing of the stack says of the resource. -/
def summary (r : ResourceDetail) : ResourceSummary := ⟨r.name, r.physicalId, r.type, r.status⟩

/-- The resource in JSON. -/
def toValue (r : ResourceDetail) : Value :=
  .ofMembers
    [("name", .string r.name),
     ("physical_id", .string r.physicalId),
     ("resource_type", .string r.type),
     ("status", .string r.status),
     ("attributes", .ofTable r.attributes)]

/-- The resource that a document says. -/
def ofNode? (n : Node) : Option ResourceDetail := do
  let fs ← n.fields? ["name", "physical_id", "resource_type", "status", "attributes"]
  some {
    name := ← fs.required "name" Node.text?
    physicalId := ← fs.required "physical_id" Node.text?
    type := ← fs.required "resource_type" Node.text?
    status := ← fs.required "status" Node.text?
    attributes := ← fs.withDefault "attributes" .empty (Node.table? Node.value?) }

end ResourceDetail

namespace StackEvent

/-- The status of a signal that has been acted on. -/
def signalComplete : String := "SIGNAL_COMPLETE"

/-- The status of a signal that has been refused. -/
def signalFailed : String := "SIGNAL_FAILED"

/-- The event in JSON. -/
def toValue (e : StackEvent) : Value :=
  .ofMembers
    [("id", .string e.id),
     ("resource_name", .string e.resource),
     ("status", .string e.status),
     ("status_reason", .ofOptionalText e.statusReason),
     ("event_time", .ofOption (fun t => .string t.text) e.time)]

/-- The event that a document says. -/
def ofNode? (n : Node) : Option StackEvent := do
  let fs ← n.fields? ["id", "resource_name", "status", "status_reason", "event_time"]
  some {
    id := ← fs.required "id" Node.text?
    resource := ← fs.required "resource_name" Node.text?
    status := ← fs.required "status" Node.text?
    statusReason := ← fs.optional "status_reason" Node.text?
    time := ← fs.optional "event_time" fun n => n.text? >>= Instant.ofLenient? }

end StackEvent

namespace TypeSchema

/-- Whether the type accepts a property. -/
def supports (s : TypeSchema) (property : String) : Bool := s.properties.contains property

/-- The schema in JSON. -/
def toValue (s : TypeSchema) : Value :=
  .ofMembers [("resource_type", .string s.type), ("properties", .ofTexts s.properties.names)]

end TypeSchema

end Provision
