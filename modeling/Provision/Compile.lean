import Provision.Compile.Flavor
import Provision.Compile.Compatibility
import Provision.Compile.Port

/-!
# Compilation

A descriptor and parameters are compiled into a graph: a server with its image, its flavor and its
ports for every compute component, and a volume with its attachment for every storage component.
Every placeholder is checked before anything else, and the only remote call is for the properties
that the endpoint supports.
-/

namespace Provision

/-- The type of servers. -/
def serverType : String := "OS::Nova::Server"

/-- The type of volumes. -/
def volumeType : String := "OS::Cinder::Volume"

/-- The type of attachments of volumes. -/
def attachmentType : String := "OS::Cinder::VolumeAttachment"

/-- The name of the attachment of a storage component. -/
def attachmentName (storage : String) : String := storage ++ "_attachment"

/-- What monitoring is told, by component and then by policy. -/
abbrev Monitoring := Table (Table Value)

/-- How to compile. -/
structure CompilerSettings where
  /-- Extra specs for every flavor; they win over those derived. -/
  flavorExtraSpecs : Table String
  deriving DecidableEq

namespace CompilerSettings

/-- Nothing configured. -/
def default : CompilerSettings := ⟨.empty⟩

/-- Configures one more extra spec. -/
def withFlavorExtraSpec (s : CompilerSettings) (key value : String) : CompilerSettings :=
  { s with flavorExtraSpecs := s.flavorExtraSpecs.put key value }

end CompilerSettings

/-- What a descriptor is compiled into. -/
structure Compiled where
  graph : ResourceGraph
  monitoring : Monitoring

namespace Compile

/-- Adds a resource to a graph under a name that is free. -/
def add (g : ResourceGraph) (name : String) (r : Resource) : Except Fault ResourceGraph :=
  (g.add name r).mapError .invalidGraph

/-- Gives the server an image: the one named, or else one of its own. -/
def addImage (name : String) (c : Compute) (s : Substitution) (g : ResourceGraph)
    (server : Resource) : Except Fault (ResourceGraph × Resource) := do
  match ← s.resolveOption c.image with
  | some image => return (g, server.set "image" (.ofValue image))
  | none =>
    match c.artifact with
    | none => return (g, server)
    | some artifact =>
      let g ← add g (imageName name) (← artifact.image name s)
      return (g, server.set "image" (.resource (imageName name)))

/-- Gives the server a flavor: the one named, or else one of its own. -/
def addFlavor (settings : CompilerSettings) (name : String) (c : Compute) (s : Substitution)
    (g : ResourceGraph) (server : Resource) : Except Fault (ResourceGraph × Resource) := do
  match ← s.resolveOption c.flavor with
  | some flavor => return (g, server.set "flavor" (.ofValue flavor))
  | none =>
    match c.capabilities with
    | none => return (g, server)
    | some caps =>
      let g ← add g (flavorName name) (← caps.flavor name s settings.flavorExtraSpecs)
      return (g, server.set "flavor" (.resource (flavorName name)))

/-- Gives the server a property from a leaf, if there is one. -/
def setLeaf (s : Substitution) (key : String) (leaf : Option Leaf) (server : Resource) :
    Except Fault Resource := do
  match ← s.resolveOption leaf with
  | some v => return server.set key (.ofValue v)
  | none => return server

/-- Gives the server everything that is said about it alone. -/
def setDetails (c : Compute) (s : Substitution) (server : Resource) : Except Fault Resource := do
  let metadata ← s.resolveProperties c.metadata
  let server := if metadata.isEmpty then server else server.set "metadata" (.ofTable metadata)
  let server ← match ← s.resolveOption c.userData with
    | some v =>
      pure ((server.set "user_data" (.ofValue v)).set "user_data_format" (.string "RAW"))
    | none => pure server
  let server ← setLeaf s "key_name" c.keyName server
  setLeaf s "availability_zone" c.availabilityZone server

/-- The port for a network requirement. -/
def requirementPort (name : String) (s : Substitution) (r : NetworkRequirement) :
    Except Fault PortRequest := do
  let addresses ← s.resolveOption r.addresses
  let extra ← s.resolveProperties r.properties
  return { PortRequest.new (portName name r.network) name r.network with
    management := r.management
    addresses := addresses
    extra := extra }

/-- The port for a connection point. -/
def connectionPort (d : Descriptor) (name : String) (s : Substitution)
    (p : String × ConnectionPoint) : Except Fault PortRequest := do
  let (cpName, cp) := p
  let network ← match d.components.get? cp.link with
    | some (.networkLink link) => s.resolve link.networkName
    | _ => throw (.invalidCapability cpName (.linkNoNetwork cp.link))
  let addresses ← s.resolveOption cp.addresses
  let extra ← s.resolveProperties cp.properties
  return { PortRequest.new cpName name cp.link with
    network := .ofValue network
    management := cp.management
    addresses := addresses
    antiSpoofing := cp.antiSpoofing
    vnic := cp.vnic
    extra := extra }

/-- The ports of a compute component: those for its requirements, then its connection points. A
component is managed through one port at most. -/
def portRequests (d : Descriptor) (name : String) (c : Compute)
    (points : List (String × ConnectionPoint)) (s : Substitution) :
    Except Fault (List PortRequest) := do
  let inline ← c.networks.mapM (requirementPort name s)
  let declared ← points.mapM (connectionPort d name s)
  let requests := inline ++ declared
  if 1 < (requests.filter PortRequest.management).length then
    throw (.invalidCapability name .severalManagement)
  return requests

variable {m : Type → Type} [Monad m]

/-- Adds the ports in turn. -/
def addPorts (catalog : Catalog m) :
    List PortRequest → ResourceGraph → SupportMemo → ExceptT Fault m (ResourceGraph × SupportMemo)
  | [], g, memo => pure (g, memo)
  | r :: rs, g, memo => do
    let port ← r.port
    let adapted ← ExceptT.lift (port.resource.adapt catalog port.name memo)
    if let some fault := adapted.fault then throw fault
    let g := match port.managementOutput with
      | some (name, o) => g.addOutput name o
      | none => g
    let g ← add g port.name adapted.resource
    addPorts catalog rs g adapted.memo

/-- The networks of a server: its ports in order. -/
def networks (requests : List PortRequest) : Property :=
  .list (requests.map fun r => .single "port" (.resource r.name))

/-- Adds a compute component and everything it owns. -/
def addCompute (settings : CompilerSettings) (catalog : Catalog m) (d : Descriptor)
    (points : List (String × ConnectionPoint)) (s : Substitution) (name : String) (c : Compute)
    (g : ResourceGraph) (memo : SupportMemo) : ExceptT Fault m (ResourceGraph × SupportMemo) := do
  let (g, server) ← addImage name c s g (Resource.new serverType)
  let (g, server) ← addFlavor settings name c s g server
  let server ← setDetails c s server
  let requests ← portRequests d name c points s
  let (g, memo) ← addPorts catalog requests g memo
  let server := if requests.isEmpty then server else server.set "networks" (networks requests)
  let g ← add g name server
  return (g, memo)

/-- Adds what a monitoring policy says. -/
def addMonitoring (s : Substitution) (name : String) (policy : Option MonitoringPolicy)
    (monitoring : Monitoring) : Except Fault Monitoring := do
  match policy with
  | none => return monitoring
  | some p =>
    let parameters ← s.resolveTable p.parameters
    let body := Value.object
      [("actions", .ofTextTable p.actions), ("parameters", .ofTable parameters)]
    return monitoring.put name (((monitoring.get? name).getD .empty).put p.name body)

/-- The connection points of every compute component, by name within each. -/
abbrev PointsByCompute := Table (List (String × ConnectionPoint))

/-- Files the connection points under the compute components they are bound to. -/
def filePoints (d : Descriptor) : List (String × ConnectionPoint) → PointsByCompute →
    Except Fault PointsByCompute
  | [], filed => .ok filed
  | (name, p) :: ps, filed =>
    if d.hasCompute p.binding then
      filePoints d ps (filed.put p.binding ((filed.get? p.binding).getD [] ++ [(name, p)]))
    else .error (.invalidCapability name (.bindingNoCompute p.binding))

/-- Whether a connection point comes no later than another: by its place, which is the last for one
without a place, then by name. -/
def pointLe (a b : String × ConnectionPoint) : Bool :=
  let place (p : ConnectionPoint) : Nat := p.order.getD (Nat.pow 2 32 - 1)
  place a.2 < place b.2 || (place a.2 == place b.2 && a.1 ≤ b.1)

/-- The connection points of every compute component, in the order of the ports. -/
def pointsByCompute (d : Descriptor) : Except Fault PointsByCompute := do
  let filed ← filePoints d (d.select Component.connectionPoint?) .empty
  return filed.map fun _ ps => ps.mergeSort pointLe

/-- Adds the compute components in turn. -/
def addComputes (settings : CompilerSettings) (catalog : Catalog m) (d : Descriptor)
    (points : PointsByCompute) (s : Substitution) :
    List (String × Compute) → Compiled → SupportMemo → ExceptT Fault m Compiled
  | [], done, _ => pure done
  | (name, c) :: cs, done, memo => do
    let (g, memo) ← addCompute settings catalog d ((points.get? name).getD []) s name c done.graph
      memo
    let monitoring ← addMonitoring s name c.monitoringPolicy done.monitoring
    addComputes settings catalog d points s cs ⟨g, monitoring⟩ memo

/-- Adds a storage component: a volume and its attachment. -/
def addStorage (d : Descriptor) (s : Substitution) (name : String) (storage : Storage)
    (g : ResourceGraph) : Except Fault ResourceGraph := do
  if !d.hasCompute storage.attachedTo then
    throw (.invalidCapability name (.attachedToNoCompute storage.attachedTo))
  let size ← s.resolve storage.size
  let gb ← match Size.ofValue? .giga size with
    | some gb => pure gb
    | none => throw (.invalidCapability name (.unusableValue "size" size))
  let volume ← setLeaf s "image" storage.image ((Resource.new volumeType).set "size" (.int gb))
  let g ← add g name volume
  let attachment := (Resource.new attachmentType).set "instance_uuid" (.resource storage.attachedTo)
    |>.set "volume_id" (.resource name)
  let attachment := match storage.mountPoint with
    | some point => attachment.set "mountpoint" (.string point)
    | none => attachment
  add g (attachmentName name) attachment

/-- Adds the storage components in turn. -/
def addStorages (d : Descriptor) (s : Substitution) :
    List (String × Storage) → ResourceGraph → Except Fault ResourceGraph
  | [], g => .ok g
  | (name, storage) :: rest, g => do
    let g ← addStorage d s name storage g
    addStorages d s rest g

end Compile

/-- Compiles a descriptor for the endpoint whose catalog is given. -/
def Descriptor.compile {m : Type → Type} [Monad m] (d : Descriptor) (settings : CompilerSettings)
    (parameters : Option Parameters) (catalog : Catalog m) : ExceptT Fault m Compiled := do
  let s ← Substitution.prepare d parameters
  let points ← Compile.pointsByCompute d
  let start : Compiled := ⟨{ ResourceGraph.empty with description := d.description }, .empty⟩
  let compiled ← Compile.addComputes settings catalog d points s d.computes start .empty
  let graph ← Compile.addStorages d s (d.select Component.storage?) compiled.graph
  graph.validate.mapError Fault.invalidGraph
  return { compiled with graph := graph }

end Provision
