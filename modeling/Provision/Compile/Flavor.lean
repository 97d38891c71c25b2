import Provision.Substitution
import Provision.Graph
import Provision.Size

/-!
# Flavors and images

The size of a server becomes a flavor of its own, the image that comes with it an image of its own.
What a flavor cannot say in numbers goes into its extra specs: page size, memory nodes and the
placement of processors.
-/

namespace Provision

/-- The type of flavors. -/
def flavorType : String := "OS::Nova::Flavor"

/-- The type of images. -/
def imageType : String := "OS::Glance::Image"

/-- The name of the flavor of a compute component. -/
def flavorName (compute : String) : String := compute ++ "_flavor"

/-- The name of the image of a compute component. -/
def imageName (compute : String) : String := compute ++ "_image"

/-- A value as the text of an extra spec. -/
def Value.specText : Value → String
  | .string s => s
  | v => Json.compact v

namespace Capabilities

/-- A number that some reader takes from a leaf, or the default if there is no leaf. -/
def number (compute field : String) (s : Substitution) (leaf : Option Leaf)
    (read? : Value → Option Int) (dflt : Int) : Except Fault Int := do
  match ← s.resolveOption leaf with
  | none => return dflt
  | some v =>
    match read? v with
    | some i => return i
    | none => throw (.invalidCapability compute (.unusableValue field v))

/-- The page size as an extra spec: one of three words, or megabytes turned into kilobytes. -/
def pageSize (compute : String) (v : Value) : Except Fault String :=
  let count : Except Fault String :=
    match v.asCount? with
    | none => .error (.invalidCapability compute (.pageSizeNoNumber v))
    | some mb =>
      let kb := mb * 1024
      if Binary64.int64Min ≤ kb ∧ kb ≤ Binary64.int64Max then .ok (Numeral.ofInt kb)
      else .error (.invalidCapability compute (.pageSizeOutOfRange mb))
  match v with
  | .string s => if s = "small" || s = "large" || s = "any" then .ok s else count
  | _ => count

/-- The processors of a memory node as text. -/
def processors : Value → String
  | .list xs => String.intercalate "," (xs.map Value.specText)
  | v => v.specText

/-- Adds the extra specs of one memory node. -/
def addNumaNode (compute : String) (s : Substitution) (specs : Table String) (name : String)
    (node : Table Leaf) : Except Fault (Table String) := do
  let node ← s.resolveTable node
  match node.names.find? fun k => k != "id" && k != "vcpus" && k != "mem_size" with
  | some k => throw (.invalidCapability compute (.numaUnsupportedKey name k))
  | none => pure ()
  let id ← match node.get? "id" with
    | some v => pure v.specText
    | none => throw (.invalidCapability compute (.numaNoId name))
  let specs := match node.get? "vcpus" with
    | some v => specs.put ("hw:numa_cpus." ++ id) (processors v)
    | none => specs
  match node.get? "mem_size" with
  | none => return specs
  | some v =>
    match Size.ofValue? .mega v with
    | some mb => return specs.put ("hw:numa_mem." ++ id) (Numeral.ofInt mb)
    | none => throw (.invalidCapability compute (.numaMemory name v))

/-- Adds the extra specs of the memory nodes in turn. -/
def addNumaNodes (compute : String) (s : Substitution) :
    List (String × Table Leaf) → Table String → Except Fault (Table String)
  | [], specs => .ok specs
  | (name, node) :: nodes, specs => do
    let specs ← addNumaNode compute s specs name node
    addNumaNodes compute s nodes specs

/-- The extra spec that a key of the processor allocation sets. -/
def cpuSpec? (key : String) : Option String :=
  match key with
  | "cpu_affinity" => some "hw:cpu_policy"
  | "thread_allocation" => some "hw:cpu_threads_policy"
  | "socket_count" => some "hw:cpu_sockets"
  | "thread_count" => some "hw:cpu_threads"
  | "core_count" => some "hw:cpu_cores"
  | _ => none

/-- Adds the extra specs of the processor allocation in turn. -/
def addCpuAllocation (compute : String) :
    List (String × Value) → Table String → Except Fault (Table String)
  | [], specs => .ok specs
  | (key, v) :: rest, specs =>
    match cpuSpec? key with
    | some spec => addCpuAllocation compute rest (specs.put spec v.specText)
    | none => .error (.invalidCapability compute (.unsupportedCpuKey key))

/-- The extra specs of the capabilities. A given number of memory nodes stands for the nodes
themselves. -/
def extraSpecs (compute : String) (c : Capabilities) (s : Substitution) :
    Except Fault (Table String) := do
  let specs ← match ← s.resolveOption c.memPageSize with
    | some v => pure (Table.empty.put "hw:mem_page_size" (← pageSize compute v))
    | none => pure .empty
  let specs ← match ← s.resolveOption c.numaNodeCount with
    | some v => pure (specs.put "hw:numa_nodes" v.specText)
    | none =>
      if c.numaNodes.isEmpty then pure specs
      else do
        let specs ← addNumaNodes compute s c.numaNodes.entries specs
        pure (specs.put "hw:numa_nodes" (Numeral.ofNat c.numaNodes.size))
  let allocation ← s.resolveTable c.cpuAllocation
  addCpuAllocation compute allocation.entries specs

/-- The flavor of a compute component; configured extra specs win over its own. -/
def flavor (compute : String) (c : Capabilities) (s : Substitution)
    (configured : Table String) : Except Fault Resource := do
  let vcpus ← number compute "num_cpus" s c.numCpus Value.asCount? 1
  let disk ← number compute "disk_size" s c.diskSize (Size.ofValue? .giga) 1
  let ram ← number compute "mem_size" s c.memSize (Size.ofValue? .mega) 512
  let specs := (← extraSpecs compute c s).extend configured
  let flavor := ((Resource.new flavorType).set "vcpus" (.int vcpus)).set "disk" (.int disk)
    |>.set "ram" (.int ram)
  if specs.isEmpty then return flavor
  else return flavor.set "extra_specs" (.ofTable (specs.map fun _ t => .string t))

end Capabilities

/-- The image of a compute component. -/
def ImageArtifact.image (compute : String) (a : ImageArtifact) (s : Substitution) :
    Except Fault Resource := do
  match ← s.resolveOption a.file with
  | none => throw (.invalidCapability compute .imageWithoutFile)
  | some location =>
    return (Resource.new imageType).set "location" (.ofValue location)
      |>.set "container_format" (.string "bare")
      |>.set "disk_format" (.string "raw")
      |>.set "name" (.string (imageName compute))

end Provision
