import Provision.Descriptor

/-!
# Descriptors in JSON and YAML

A descriptor is written as a mapping of its fields. A component or a policy says its kind beside its
own fields. Fields that are left out have defaults, and fields nobody knows are passed over.
-/

namespace Provision

namespace Leaf

/-- A leaf, or nothing. -/
def toOptionalValue (l : Option Leaf) : Value := .ofOption toValue l

/-- A table of leaves. -/
def toTableValue (t : Table Leaf) : Value := .ofTable (t.map fun _ l => l.toValue)

/-- The table of leaves that a document says. -/
def tableOfNode? : Node → Option (Table Leaf) := Node.table? ofNode?

end Leaf

namespace InputDecl

/-- The declaration in JSON. -/
def toValue (i : InputDecl) : Value :=
  .ofMembers
    [("description", .ofOptionalText i.description),
     ("default", .ofOption id i.default?)]

/-- The declaration that a document says. -/
def ofNode? (n : Node) : Option InputDecl := do
  let fs ← n.fields? ["description", "default"]
  some {
    description := ← fs.optional "description" Node.text?
    default? := ← fs.optional "default" Node.value? }

end InputDecl

namespace Capabilities

/-- The capabilities in JSON. -/
def toValue (c : Capabilities) : Value :=
  .ofMembers
    [("num_cpus", Leaf.toOptionalValue c.numCpus),
     ("disk_size", Leaf.toOptionalValue c.diskSize),
     ("mem_size", Leaf.toOptionalValue c.memSize),
     ("mem_page_size", Leaf.toOptionalValue c.memPageSize),
     ("numa_node_count", Leaf.toOptionalValue c.numaNodeCount),
     ("numa_nodes", .ofTable (c.numaNodes.map fun _ t => Leaf.toTableValue t)),
     ("cpu_allocation", Leaf.toTableValue c.cpuAllocation)]

/-- The capabilities that a document says. -/
def ofNode? (n : Node) : Option Capabilities := do
  let fs ← n.fields?
    ["num_cpus", "disk_size", "mem_size", "mem_page_size", "numa_node_count", "numa_nodes",
     "cpu_allocation"]
  some {
    numCpus := ← fs.optional "num_cpus" Leaf.ofNode?
    diskSize := ← fs.optional "disk_size" Leaf.ofNode?
    memSize := ← fs.optional "mem_size" Leaf.ofNode?
    memPageSize := ← fs.optional "mem_page_size" Leaf.ofNode?
    numaNodeCount := ← fs.optional "numa_node_count" Leaf.ofNode?
    numaNodes := ← fs.withDefault "numa_nodes" .empty (Node.table? Leaf.tableOfNode?)
    cpuAllocation := ← fs.withDefault "cpu_allocation" .empty Leaf.tableOfNode? }

end Capabilities

namespace NetworkRequirement

/-- The requirement in JSON. -/
def toValue (r : NetworkRequirement) : Value :=
  .ofMembers
    [("network", .string r.network),
     ("management", .bool r.management),
     ("addresses", Leaf.toOptionalValue r.addresses),
     ("properties", Leaf.toTableValue r.properties)]

/-- The requirement that a document says. -/
def ofNode? (n : Node) : Option NetworkRequirement := do
  let fs ← n.fields? ["network", "management", "addresses", "properties"]
  some {
    network := ← fs.required "network" Node.text?
    management := ← fs.withDefault "management" false Node.bool?
    addresses := ← fs.optional "addresses" Leaf.ofNode?
    properties := ← fs.withDefault "properties" .empty Leaf.tableOfNode? }

end NetworkRequirement

namespace MonitoringPolicy

/-- The policy in JSON. -/
def toValue (p : MonitoringPolicy) : Value :=
  .ofMembers
    [("name", .string p.name),
     ("parameters", Leaf.toTableValue p.parameters),
     ("actions", .ofTextTable p.actions)]

/-- The policy that a document says. -/
def ofNode? (n : Node) : Option MonitoringPolicy := do
  let fs ← n.fields? ["name", "parameters", "actions"]
  some {
    name := ← fs.required "name" Node.text?
    parameters := ← fs.withDefault "parameters" .empty Leaf.tableOfNode?
    actions := ← fs.withDefault "actions" .empty (Node.table? Node.text?) }

end MonitoringPolicy

namespace ImageArtifact

/-- The artifact in JSON. -/
def toValue (a : ImageArtifact) : Value := .single "file" (Leaf.toOptionalValue a.file)

/-- The artifact that a document says. -/
def ofNode? (n : Node) : Option ImageArtifact := do
  let fs ← n.fields? ["file"]
  some { file := ← fs.optional "file" Leaf.ofNode? }

end ImageArtifact

namespace Compute

/-- The fields of the server in JSON. -/
def toMembers (c : Compute) : List (String × Value) :=
  [("image", Leaf.toOptionalValue c.image),
   ("artifact", .ofOption ImageArtifact.toValue c.artifact),
   ("flavor", Leaf.toOptionalValue c.flavor),
   ("capabilities", .ofOption Capabilities.toValue c.capabilities),
   ("networks", .list (c.networks.map NetworkRequirement.toValue)),
   ("metadata", Leaf.toTableValue c.metadata),
   ("monitoring_policy", .ofOption MonitoringPolicy.toValue c.monitoringPolicy),
   ("user_data", Leaf.toOptionalValue c.userData),
   ("key_name", Leaf.toOptionalValue c.keyName),
   ("availability_zone", Leaf.toOptionalValue c.availabilityZone)]

/-- The server that a document says. -/
def ofNode? (n : Node) : Option Compute := do
  let fs ← n.fields?
    ["image", "artifact", "flavor", "capabilities", "networks", "metadata", "monitoring_policy",
     "user_data", "key_name", "availability_zone"]
  some {
    image := ← fs.optional "image" Leaf.ofNode?
    artifact := ← fs.optional "artifact" ImageArtifact.ofNode?
    flavor := ← fs.optional "flavor" Leaf.ofNode?
    capabilities := ← fs.optional "capabilities" Capabilities.ofNode?
    networks := ← fs.withDefault "networks" [] (Node.list? NetworkRequirement.ofNode?)
    metadata := ← fs.withDefault "metadata" .empty Leaf.tableOfNode?
    monitoringPolicy := ← fs.optional "monitoring_policy" MonitoringPolicy.ofNode?
    userData := ← fs.optional "user_data" Leaf.ofNode?
    keyName := ← fs.optional "key_name" Leaf.ofNode?
    availabilityZone := ← fs.optional "availability_zone" Leaf.ofNode? }

end Compute

namespace Storage

/-- The fields of the volume in JSON. -/
def toMembers (s : Storage) : List (String × Value) :=
  [("size", s.size.toValue),
   ("image", Leaf.toOptionalValue s.image),
   ("attached_to", .string s.attachedTo),
   ("mount_point", .ofOptionalText s.mountPoint)]

/-- The volume that a document says. -/
def ofNode? (n : Node) : Option Storage := do
  let fs ← n.fields? ["size", "image", "attached_to", "mount_point"]
  some {
    size := ← fs.required "size" Leaf.ofNode?
    image := ← fs.optional "image" Leaf.ofNode?
    attachedTo := ← fs.required "attached_to" Node.text?
    mountPoint := ← fs.optional "mount_point" Node.text? }

end Storage

namespace NetworkLink

/-- The fields of the link in JSON. -/
def toMembers (l : NetworkLink) : List (String × Value) :=
  [("network_name", l.networkName.toValue)]

/-- The link that a document says. -/
def ofNode? (n : Node) : Option NetworkLink := do
  let fs ← n.fields? ["network_name"]
  some { networkName := ← fs.required "network_name" Leaf.ofNode? }

end NetworkLink

namespace ConnectionPoint

/-- The fields of the connection point in JSON. -/
def toMembers (p : ConnectionPoint) : List (String × Value) :=
  [("binding", .string p.binding),
   ("link", .string p.link),
   ("management", .bool p.management),
   ("anti_spoofing_protection", .ofOption .bool p.antiSpoofing),
   ("type", .ofOption (fun k => .string k.name) p.vnic),
   ("addresses", Leaf.toOptionalValue p.addresses),
   ("order", .ofOption .ofNat p.order),
   ("properties", Leaf.toTableValue p.properties)]

/-- The connection point that a document says. -/
def ofNode? (n : Node) : Option ConnectionPoint := do
  let fs ← n.fields?
    ["binding", "link", "management", "anti_spoofing_protection", "type", "addresses", "order",
     "properties"]
  some {
    binding := ← fs.required "binding" Node.text?
    link := ← fs.required "link" Node.text?
    management := ← fs.withDefault "management" false Node.bool?
    antiSpoofing := ← fs.optional "anti_spoofing_protection" Node.bool?
    vnic := ← fs.optional "type" fun n => n.variant? >>= VnicKind.ofName?
    addresses := ← fs.optional "addresses" Leaf.ofNode?
    order := ← fs.optional "order" (Node.nat? (Nat.pow 2 32))
    properties := ← fs.withDefault "properties" .empty Leaf.tableOfNode? }

end ConnectionPoint

/-- The field that gives the kind of a component or a policy. -/
def kindField : String := "kind"

/-- A record with its kind. -/
def Value.ofKind (kind : String) (members : List (String × Value)) : Value :=
  .ofMembers ((kindField, .string kind) :: members)

namespace Component

/-- The component in JSON. -/
def toValue : Component → Value
  | .compute c => .ofKind "compute" c.toMembers
  | .storage s => .ofKind "storage" s.toMembers
  | .networkLink l => .ofKind "network_link" l.toMembers
  | .connectionPoint p => .ofKind "connection_point" p.toMembers

/-- The component that a document says. -/
def ofNode? (n : Node) : Option Component := do
  let (kind, fields) ← n.tagged? kindField
  match kind with
  | "compute" => (Compute.ofNode? fields).map .compute
  | "storage" => (Storage.ofNode? fields).map .storage
  | "network_link" => (NetworkLink.ofNode? fields).map .networkLink
  | "connection_point" => (ConnectionPoint.ofNode? fields).map .connectionPoint
  | _ => none

end Component

namespace ScalingPolicy

/-- The fields of the policy in JSON. -/
def toMembers (p : ScalingPolicy) : List (String × Value) :=
  [("name", .string p.name),
   ("targets", .ofTexts p.targets),
   ("min", .ofNat p.least),
   ("max", .ofNat p.greatest),
   ("default", .ofNat p.desired),
   ("increment", .ofNat p.increment),
   ("cooldown", .ofNat p.cooldown)]

/-- The policy in JSON, without its kind. -/
def toValue (p : ScalingPolicy) : Value := .ofMembers p.toMembers

/-- The policy that a document says. -/
def ofNode? (n : Node) : Option ScalingPolicy := do
  let fs ← n.fields? ["name", "targets", "min", "max", "default", "increment", "cooldown"]
  let count := Node.nat? (Nat.pow 2 32)
  some {
    name := ← fs.required "name" Node.text?
    targets := ← fs.required "targets" (Node.list? Node.text?)
    least := ← fs.required "min" count
    greatest := ← fs.required "max" count
    desired := ← fs.required "default" count
    increment := ← fs.required "increment" count
    cooldown := ← fs.required "cooldown" count }

end ScalingPolicy

namespace AlarmPolicy

/-- The fields of the policy in JSON. -/
def toMembers (a : AlarmPolicy) : List (String × Value) :=
  [("name", .string a.name),
   ("metadata", .string a.metadata),
   ("meter_name", .string a.meterName),
   ("comparison_operator", .string a.comparison),
   ("period", .ofNat a.period),
   ("evaluation_periods", .ofNat a.evaluationPeriods),
   ("statistic", .string a.statistic),
   ("threshold", .ofFloat a.threshold),
   ("actions", .ofTexts a.actions)]

/-- The policy that a document says. -/
def ofNode? (n : Node) : Option AlarmPolicy := do
  let fs ← n.fields?
    ["name", "metadata", "meter_name", "comparison_operator", "period", "evaluation_periods",
     "statistic", "threshold", "actions"]
  some {
    name := ← fs.required "name" Node.text?
    metadata := ← fs.required "metadata" Node.text?
    meterName := ← fs.required "meter_name" Node.text?
    comparison := ← fs.required "comparison_operator" Node.text?
    period := ← fs.required "period" (Node.nat? (Nat.pow 2 64))
    evaluationPeriods := ← fs.required "evaluation_periods" (Node.nat? (Nat.pow 2 32))
    statistic := ← fs.required "statistic" Node.text?
    threshold := ← fs.required "threshold" Node.float?
    actions := ← fs.withDefault "actions" [] (Node.list? Node.text?) }

end AlarmPolicy

namespace Policy

/-- The policy in JSON. -/
def toValue : Policy → Value
  | .scaling p => .ofKind "scaling" p.toMembers
  | .alarm a => .ofKind "alarm" a.toMembers

/-- The policy that a document says. -/
def ofNode? (n : Node) : Option Policy := do
  let (kind, fields) ← n.tagged? kindField
  match kind with
  | "scaling" => (ScalingPolicy.ofNode? fields).map .scaling
  | "alarm" => (AlarmPolicy.ofNode? fields).map .alarm
  | _ => none

end Policy

namespace Descriptor

/-- The descriptor in JSON. -/
def toValue (d : Descriptor) : Value :=
  .ofMembers
    [("name", .string d.name),
     ("description", .ofOptionalText d.description),
     ("inputs", .ofTable (d.inputs.map fun _ i => i.toValue)),
     ("components", .ofTable (d.components.map fun _ c => c.toValue)),
     ("policies", .list (d.policies.map Policy.toValue))]

/-- The descriptor that a document says. -/
def ofNode? (n : Node) : Option Descriptor := do
  let fs ← n.fields? ["name", "description", "inputs", "components", "policies"]
  some {
    name := ← fs.required "name" Node.text?
    description := ← fs.optional "description" Node.text?
    inputs := ← fs.withDefault "inputs" .empty (Node.table? InputDecl.ofNode?)
    components := ← fs.withDefault "components" .empty (Node.table? Component.ofNode?)
    policies := ← fs.withDefault "policies" [] (Node.list? Policy.ofNode?) }

/-- The descriptor that a value says. -/
def ofValue? (v : Value) : Option Descriptor := ofNode? (Node.ofValue v)

end Descriptor

end Provision
