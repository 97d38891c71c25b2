import Provision.Graph
import Provision.Descriptor

/-!
# Ports

Every network that a server is attached to takes a port. The port that a server is managed through
is also declared as an output, under a reserved prefix and the name of the server, so that its
address can be found without knowing the workload.
-/

namespace Provision

/-- The type of ports. -/
def portType : String := "OS::Neutron::Port"

/-- The name of the port of a compute component on a network. -/
def portName (compute network : String) : String := compute ++ "-" ++ network ++ "-port"

/-- What the names of management outputs begin with. -/
def managementMark : String := "mgmt_ip-"

/-- The name of the management output of a compute component. -/
def managementOutput (compute : String) : String := managementMark ++ compute

/-- The compute component that a management output belongs to. -/
def managed? (output : String) : Option String :=
  let mark := managementMark.toList
  if mark.isPrefixOf output.toList then some (String.ofList (output.toList.drop mark.length))
  else none

/-- Everything that a port is made from. -/
structure PortRequest where
  name : String
  /-- The compute component that has the port. -/
  compute : String
  /-- What faults call the network. -/
  networkLabel : String
  network : Property
  management : Bool
  addresses : Option Value
  antiSpoofing : Option Bool
  vnic : Option VnicKind
  /-- Further properties; they win over the others. -/
  extra : Table Property

/-- A port, and the output that it is the source of. -/
structure Port where
  name : String
  resource : Resource
  managementOutput : Option (String × Output)

namespace PortRequest

/-- A request of which only the names are said. -/
def new (name compute network : String) : PortRequest where
  name := name
  compute := compute
  networkLabel := network
  network := .string network
  management := false
  addresses := none
  antiSpoofing := none
  vnic := none
  extra := .empty

/-- The static addresses as a property, if they are a list. -/
def fixedAddresses? : Value → Option Property
  | .list xs => some (.list (xs.map fun a => .single "ip_address" (.ofValue a)))
  | _ => none

/-- The output that reads the first address of the port. -/
def output (r : PortRequest) : String × Output :=
  (Provision.managementOutput r.compute,
   { resource := r.name
     path := ["fixed_ips", "0", "ip_address"]
     description := some ("management ip address of " ++ r.compute) })

/-- The port that is asked for. -/
def port (r : PortRequest) : Except Fault Port := do
  let base := ((Resource.new portType).set "network" r.network).set "port_security_enabled"
    (.bool (r.antiSpoofing.getD false))
  let base := match r.vnic with
    | some kind => base.set "binding:vnic_type" (.string kind.binding)
    | none => base
  let base ← match r.addresses with
    | none => pure base
    | some addresses =>
      match fixedAddresses? addresses with
      | some ips => pure (base.set "fixed_ips" ips)
      | none => throw (.addressesNoList r.compute r.networkLabel)
  return {
    name := r.name
    resource := { base with properties := base.properties.extend r.extra }
    managementOutput := if r.management then some r.output else none }

end PortRequest

end Provision
