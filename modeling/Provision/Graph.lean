import Provision.Property
import Provision.Acyclic

/-!
# Resource graphs

A graph holds resources by name; the references among their properties are its edges. It also
declares outputs, each an attribute of a resource, and may nest further graphs under file names.
A graph is sound if, at every depth of nesting, every edge and every output starts from a resource
of the same graph and the edges form no cycle; `validate` finds the first thing wrong.
-/

namespace Provision

/-- A resource: its type and its properties. -/
structure Resource where
  type : String
  properties : Table Property

namespace Resource

/-- A resource without properties. -/
def new (type : String) : Resource := ⟨type, .empty⟩

/-- Sets a property. -/
def set (r : Resource) (name : String) (value : Property) : Resource :=
  { r with properties := r.properties.put name value }

/-- The names of the resources that the properties refer to. -/
def references (r : Resource) : NameSet :=
  NameSet.ofNames (r.properties.values.flatMap Property.referenceList)

end Resource

/-- An output: an attribute of a resource, by its path. -/
structure Output where
  resource : String
  path : List String
  description : Option String
  deriving DecidableEq

/-- The property value that reads the output; a step that is a whole number is an index. -/
def Output.value (o : Output) : Property :=
  .attribute o.resource <| o.path.map fun step =>
    match Numeral.readNat (Nat.pow 2 64) step with
    | some i => .index i
    | none => .key step

/-- Resources, outputs and nested graphs; the nested ones are listed by file name. -/
structure ResourceGraph where
  description : Option String
  resources : Table Resource
  outputs : Table Output
  files : List (String × ResourceGraph)

namespace ResourceGraph

/-- The graph that holds nothing. -/
def empty : ResourceGraph := ⟨none, .empty, .empty, []⟩

instance : Inhabited ResourceGraph := ⟨empty⟩

/-- The resource of that name. -/
def resource? (g : ResourceGraph) (name : String) : Option Resource := g.resources.get? name

/-- Whether there is a resource of that name. -/
def contains (g : ResourceGraph) (name : String) : Bool := g.resources.contains name

/-- Adds a resource under a name that is free. -/
def add (g : ResourceGraph) (name : String) (r : Resource) : Except GraphFault ResourceGraph :=
  if g.contains name then .error (.duplicate name)
  else .ok { g with resources := g.resources.put name r }

/-- Drops a resource. -/
def remove (g : ResourceGraph) (name : String) : ResourceGraph :=
  { g with resources := g.resources.erase name }

/-- Declares an output, in place of one of the same name. -/
def addOutput (g : ResourceGraph) (name : String) (o : Output) : ResourceGraph :=
  { g with outputs := g.outputs.put name o }

/-- Drops an output. -/
def removeOutput (g : ResourceGraph) (name : String) : ResourceGraph :=
  { g with outputs := g.outputs.erase name }

/-- Nests a graph under a file name, in place of one of the same name. -/
def addFile (g : ResourceGraph) (name : String) (nested : ResourceGraph) : ResourceGraph :=
  { g with files := Entries.put name nested g.files }

/-- The graph nested under a file name. -/
def file? (g : ResourceGraph) (name : String) : Option ResourceGraph := Entries.get? name g.files

/-- The resources of one type, by name. -/
def ofType (g : ResourceGraph) (type : String) : Table Resource :=
  g.resources.filter fun _ r => r.type == type

/-- Adds resources in turn and stops at the first name that is taken. -/
def addAll (g : ResourceGraph) : List (String × Resource) → ResourceGraph × Option GraphFault
  | [] => (g, none)
  | (name, r) :: rs =>
    match g.add name r with
    | .ok g => addAll g rs
    | .error f => (g, some f)

/-- Copies everything of `fragment` into the graph: resources by name up to the first whose name is
taken, and if there is no such resource also the outputs and the nested graphs, which win over
those of the same name. -/
def merge (g fragment : ResourceGraph) : ResourceGraph × Option GraphFault :=
  match g.addAll fragment.resources.entries with
  | (g, some f) => (g, some f)
  | (g, none) =>
    ({ g with
        outputs := g.outputs.extend fragment.outputs
        files := fragment.files.foldl (fun fs e => Entries.put e.1 e.2 fs) g.files }, none)

/-- The merged graph, if no name is taken twice. -/
def merged (g fragment : ResourceGraph) : Except GraphFault ResourceGraph :=
  match g.merge fragment with
  | (g, none) => .ok g
  | (_, some f) => .error f

/-- The edges, by the resource that refers and then by the one referred to. -/
def edges (g : ResourceGraph) : List (String × String) :=
  g.resources.entries.flatMap fun (name, r) => r.references.names.map fun target => (name, target)

/-- The names that a resource refers to; none if there is no such resource. -/
def targets (g : ResourceGraph) (name : String) : List String :=
  match g.resource? name with
  | some r => r.references.names
  | none => []

/-- The first thing wrong with the graph itself, nested graphs left aside. -/
def flaw? (g : ResourceGraph) : Option GraphFault :=
  match g.edges.find? fun e => !g.contains e.2 with
  | some (source, target) => some (.unknownReference source target)
  | none =>
    match g.outputs.entries.find? fun e => !g.contains e.2.resource with
    | some (name, o) => some (.unknownSource name o.resource)
    | none => (Acyclic.onCycle? g.targets g.resources.names).map .cycle

mutual

/-- The first thing wrong with the graph or one nested in it. -/
def fault? (g : ResourceGraph) : Option GraphFault :=
  match g with
  | ⟨description, resources, outputs, files⟩ =>
    match flaw? ⟨description, resources, outputs, files⟩ with
    | some f => some f
    | none => filesFault? files

/-- The first thing wrong with the graphs nested under file names. -/
def filesFault? : List (String × ResourceGraph) → Option GraphFault
  | [] => none
  | (name, nested) :: fs =>
    match fault? nested with
    | some f => some (.inFile name f)
    | none => filesFault? fs

end

/-- Passes a sound graph, and refuses any other with the first thing wrong. -/
def validate (g : ResourceGraph) : Except GraphFault Unit :=
  match g.fault? with
  | some f => .error f
  | none => .ok ()

end ResourceGraph

end Provision
