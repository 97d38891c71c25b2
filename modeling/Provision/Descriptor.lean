import Provision.Descriptor.Leaf

/-!
# Workload descriptors

A descriptor says what to deploy: components by name, policies in order, and the inputs that leaves
of the components may refer to. Names that other names are made from are plain text; everything
else that a deployment may want to vary is a `Leaf`.
-/

namespace Provision

/-- An input: its value stands in where the parameters have none of that name. -/
structure InputDecl where
  description : Option String
  default? : Option Value

/-- The size of a compute component. -/
structure Capabilities where
  numCpus : Option Leaf
  /-- Gigabytes, or a number with its unit. -/
  diskSize : Option Leaf
  /-- Megabytes, or a number with its unit. -/
  memSize : Option Leaf
  memPageSize : Option Leaf
  numaNodeCount : Option Leaf
  numaNodes : Table (Table Leaf)
  cpuAllocation : Table Leaf

/-- A network that a compute component is attached to by a port of its own. -/
structure NetworkRequirement where
  network : String
  management : Bool
  /-- Static addresses; a list. -/
  addresses : Option Leaf
  properties : Table Leaf

/-- What the monitoring of a compute component is told. -/
structure MonitoringPolicy where
  name : String
  parameters : Table Leaf
  actions : Table String

/-- An image that is shipped with the workload. -/
structure ImageArtifact where
  file : Option Leaf

/-- A server. -/
structure Compute where
  image : Option Leaf
  artifact : Option ImageArtifact
  flavor : Option Leaf
  capabilities : Option Capabilities
  networks : List NetworkRequirement
  metadata : Table Leaf
  monitoringPolicy : Option MonitoringPolicy
  userData : Option Leaf
  keyName : Option Leaf
  availabilityZone : Option Leaf

/-- A volume attached to a compute component. -/
structure Storage where
  size : Leaf
  image : Option Leaf
  attachedTo : String
  mountPoint : Option String

/-- A network that exists already. -/
structure NetworkLink where
  networkName : Leaf

/-- The kind of network card of a connection point. -/
inductive VnicKind where
  | sriov
  | vnic
  deriving DecidableEq

/-- A port that is a component of its own. -/
structure ConnectionPoint where
  /-- The compute component that has the port. -/
  binding : String
  /-- The network link that the port is plugged into. -/
  link : String
  management : Bool
  antiSpoofing : Option Bool
  vnic : Option VnicKind
  addresses : Option Leaf
  /-- The place among the ports of the compute component. -/
  order : Option Nat
  properties : Table Leaf

/-- A component. -/
inductive Component where
  | compute (c : Compute)
  | storage (s : Storage)
  | networkLink (l : NetworkLink)
  | connectionPoint (p : ConnectionPoint)

/-- A group of compute components that grows and shrinks. -/
structure ScalingPolicy where
  name : String
  targets : List String
  least : Nat
  greatest : Nat
  desired : Nat
  increment : Nat
  /-- Seconds. -/
  cooldown : Nat
  deriving DecidableEq

/-- An alarm on a metric of the servers that expose a metadata value. -/
structure AlarmPolicy where
  name : String
  metadata : String
  meterName : String
  comparison : String
  /-- Seconds. -/
  period : Nat
  evaluationPeriods : Nat
  statistic : String
  threshold : Binary64
  /-- Names of scaling policies, or addresses to notify. -/
  actions : List String
  deriving DecidableEq

/-- A policy. -/
inductive Policy where
  | scaling (p : ScalingPolicy)
  | alarm (a : AlarmPolicy)
  deriving DecidableEq

/-- What to deploy. -/
structure Descriptor where
  name : String
  description : Option String
  inputs : Table InputDecl
  components : Table Component
  policies : List Policy

namespace VnicKind

/-- The name of the kind. -/
def name : VnicKind → String
  | .sriov => "sriov"
  | .vnic => "vnic"

/-- The kind of that name. -/
def ofName? (name : String) : Option VnicKind :=
  if name = "sriov" then some .sriov else if name = "vnic" then some .vnic else none

/-- How the network service binds a card of this kind. -/
def binding : VnicKind → String
  | .sriov => "direct"
  | .vnic => "normal"

end VnicKind

/-- The inputs that an optional leaf refers to. -/
def Leaf.inputListOption : Option Leaf → List String
  | none => []
  | some l => l.inputList

/-- The inputs that the leaves of a table refer to. -/
def Leaf.inputListTable (t : Table Leaf) : List String := t.values.flatMap Leaf.inputList

namespace Capabilities

/-- Capabilities of which nothing is said. -/
def blank : Capabilities where
  numCpus := none
  diskSize := none
  memSize := none
  memPageSize := none
  numaNodeCount := none
  numaNodes := .empty
  cpuAllocation := .empty

/-- The inputs that the capabilities refer to. -/
def inputList (c : Capabilities) : List String :=
  [c.numCpus, c.diskSize, c.memSize, c.memPageSize, c.numaNodeCount].flatMap Leaf.inputListOption
    ++ c.numaNodes.values.flatMap Leaf.inputListTable
    ++ Leaf.inputListTable c.cpuAllocation

end Capabilities

namespace NetworkRequirement

/-- The inputs that the requirement refers to. -/
def inputList (r : NetworkRequirement) : List String :=
  Leaf.inputListOption r.addresses ++ Leaf.inputListTable r.properties

end NetworkRequirement

namespace Compute

/-- A server of which nothing is said. -/
def blank : Compute where
  image := none
  artifact := none
  flavor := none
  capabilities := none
  networks := []
  metadata := .empty
  monitoringPolicy := none
  userData := none
  keyName := none
  availabilityZone := none

/-- The inputs that the server refers to. -/
def inputList (c : Compute) : List String :=
  [c.image, c.flavor, c.userData, c.keyName, c.availabilityZone].flatMap Leaf.inputListOption
    ++ (match c.artifact with
      | some a => Leaf.inputListOption a.file
      | none => [])
    ++ (match c.capabilities with
      | some caps => caps.inputList
      | none => [])
    ++ c.networks.flatMap NetworkRequirement.inputList
    ++ Leaf.inputListTable c.metadata
    ++ (match c.monitoringPolicy with
      | some p => Leaf.inputListTable p.parameters
      | none => [])

end Compute

namespace Component

/-- The inputs that a component refers to. -/
def inputList : Component → List String
  | .compute c => c.inputList
  | .storage s => s.size.inputList ++ Leaf.inputListOption s.image
  | .networkLink l => l.networkName.inputList
  | .connectionPoint p => Leaf.inputListOption p.addresses ++ Leaf.inputListTable p.properties

/-- The server, if the component is one. -/
def compute? : Component → Option Compute
  | .compute c => some c
  | _ => none

/-- The volume, if the component is one. -/
def storage? : Component → Option Storage
  | .storage s => some s
  | _ => none

/-- The network link, if the component is one. -/
def networkLink? : Component → Option NetworkLink
  | .networkLink l => some l
  | _ => none

/-- The connection point, if the component is one. -/
def connectionPoint? : Component → Option ConnectionPoint
  | .connectionPoint p => some p
  | _ => none

end Component

namespace Descriptor

/-- The descriptor that says nothing but its name. -/
def named (name : String) : Descriptor := ⟨name, none, .empty, .empty, []⟩

/-- Adds a component, in place of one of the same name. -/
def withComponent (d : Descriptor) (name : String) (c : Component) : Descriptor :=
  { d with components := d.components.put name c }

/-- Adds a policy after the others. -/
def withPolicy (d : Descriptor) (p : Policy) : Descriptor :=
  { d with policies := d.policies ++ [p] }

/-- Declares an input. -/
def withInput (d : Descriptor) (name : String) (dflt : Option Value) : Descriptor :=
  { d with inputs := d.inputs.put name ⟨none, dflt⟩ }

/-- The names of the inputs that the components refer to. -/
def referencedInputs (d : Descriptor) : NameSet :=
  NameSet.ofNames (d.components.values.flatMap Component.inputList)

/-- The components of one kind, by name. -/
def select (d : Descriptor) (kind : Component → Option α) : List (String × α) :=
  d.components.entries.filterMap fun (name, c) => (kind c).map fun a => (name, a)

/-- The compute components, by name. -/
def computes (d : Descriptor) : List (String × Compute) := d.select Component.compute?

/-- Whether there is a compute component of that name. -/
def hasCompute (d : Descriptor) (name : String) : Bool :=
  match d.components.get? name with
  | some (.compute _) => true
  | _ => false

/-- The scaling policies, in order. -/
def scalingPolicies (d : Descriptor) : List ScalingPolicy :=
  d.policies.filterMap fun
    | .scaling p => some p
    | _ => none

/-- The alarm policies, in order. -/
def alarmPolicies (d : Descriptor) : List AlarmPolicy :=
  d.policies.filterMap fun
    | .alarm a => some a
    | _ => none

end Descriptor

end Provision
