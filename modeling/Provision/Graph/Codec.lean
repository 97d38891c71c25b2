import Provision.Graph
import Provision.Document

/-!
# Graphs in JSON

The form in which graphs are kept, with every field written. A missing field is empty.
-/

namespace Provision

namespace Resource

/-- The resource in JSON. -/
def toValue (r : Resource) : Value :=
  .object [("properties", .ofTable (r.properties.map fun _ p => p.toValue)),
    ("type", .string r.type)]

/-- The resource that a document says. -/
def ofNode? (n : Node) : Option Resource := do
  let fs ← n.fields? ["type", "properties"]
  some {
    type := ← fs.required "type" Node.text?
    properties := ← fs.withDefault "properties" .empty
      (Node.table? fun n => n.value?.map Property.ofValue) }

end Resource

namespace Output

/-- The output in JSON. -/
def toValue (o : Output) : Value :=
  .object [("description", .ofOptionalText o.description),
    ("path", .ofTexts o.path),
    ("resource", .string o.resource)]

/-- The output that a document says. -/
def ofNode? (n : Node) : Option Output := do
  let fs ← n.fields? ["resource", "path", "description"]
  some {
    resource := ← fs.required "resource" Node.text?
    path := ← fs.required "path" (Node.list? Node.text?)
    description := ← fs.optional "description" Node.text? }

end Output

namespace ResourceGraph

mutual

/-- The graph in JSON. -/
def toValue (g : ResourceGraph) : Value :=
  match g with
  | ⟨description, resources, outputs, files⟩ =>
    .object [("description", .ofOptionalText description),
      ("files", .object (filesToMembers files)),
      ("outputs", .ofTable (outputs.map fun _ o => o.toValue)),
      ("resources", .ofTable (resources.map fun _ r => r.toValue))]

/-- Nested graphs in JSON. -/
def filesToMembers : List (String × ResourceGraph) → List (String × Value)
  | [] => []
  | (name, nested) :: fs => (name, toValue nested) :: filesToMembers fs

end

/-- The graph that a document says, of nested graphs at most `depth` levels. -/
def ofNodeWithin? : Nat → Node → Option ResourceGraph
  | 0, _ => none
  | depth + 1, n => do
    let fs ← n.fields? ["description", "resources", "outputs", "files"]
    let files ← fs.withDefault "files" .empty (Node.table? (ofNodeWithin? depth))
    some {
      description := ← fs.optional "description" Node.text?
      resources := ← fs.withDefault "resources" .empty (Node.table? Resource.ofNode?)
      outputs := ← fs.withDefault "outputs" .empty (Node.table? Output.ofNode?)
      files := files.entries }

/-- The graph that a document says. -/
def ofNode? (n : Node) : Option ResourceGraph := ofNodeWithin? (n.depth + 1) n

end ResourceGraph

end Provision
