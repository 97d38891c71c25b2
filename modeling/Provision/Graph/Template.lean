import Provision.Graph
import Provision.Stack.Submission

/-!
# Templates

A graph in the format of the orchestration service: one JSON object, and beside it the texts of the
templates nested directly under it.
-/

namespace Provision

namespace Resource

/-- The resource in a template; properties are left out if there are none. -/
def toTemplate (r : Resource) : Value :=
  if r.properties.isEmpty then .single "type" (.string r.type)
  else .object [("properties", .ofTable (r.properties.map fun _ p => p.toValue)),
    ("type", .string r.type)]

end Resource

namespace Output

/-- The output in a template. -/
def toTemplate (o : Output) : Value :=
  match o.description with
  | none => .single "value" o.value.toValue
  | some d => .object [("description", .string d), ("value", o.value.toValue)]

end Output

namespace ResourceGraph

/-- The version of the template format. -/
def templateVersion : String := "2013-05-23"

/-- The template of the graph, without the nested graphs. -/
def toTemplate (g : ResourceGraph) : Value :=
  .ofMembers <|
    [("heat_template_version", .string templateVersion),
     ("resources", .ofTable (g.resources.map fun _ r => r.toTemplate))]
    ++ (match g.description with
      | some d => [("description", .string d)]
      | none => [])
    ++ (if g.outputs.isEmpty then []
      else [("outputs", .ofTable (g.outputs.map fun _ o => o.toTemplate))])

/-- The texts of the templates nested under file names. -/
def fileTexts (g : ResourceGraph) : Table String :=
  .ofList (g.files.map fun (name, nested) => (name, Json.pretty nested.toTemplate))

/-- The submission that creates the graph as a stack. -/
def toSubmission (g : ResourceGraph) (stackName : String) : Submission where
  stackName := stackName
  template := g.toTemplate
  files := g.fileTexts
  parameters := .empty
  timeoutMins := none
  disableRollback := false

end ResourceGraph

end Provision
