import Provision.Json.Skim
import Provision.Json.Printer
import Provision.Scaling

/-!
# Deployment records

What a deployment leaves behind, so that its stack can be scaled and deleted later.
-/

namespace Provision

/-- The stack that was created, and what has to be known to drive it. -/
structure DeploymentRecord where
  stackId : String
  stackName : String
  bindings : Bindings
  alarmTags : Table String

namespace DeploymentRecord

/-- The record as it is kept: the stack comes first. -/
def text (r : DeploymentRecord) : String :=
  Json.pretty (.object
    [("stack_id", .string r.stackId),
     ("stack_name", .string r.stackName),
     ("bindings", .ofTextTable r.bindings),
     ("alarm_tags", .ofTextTable r.alarmTags)])

/-- The record that a document says. -/
def ofNode? (n : Node) : Option DeploymentRecord := do
  let fs ← n.fields? ["stack_id", "stack_name", "bindings", "alarm_tags"]
  some {
    stackId := ← fs.required "stack_id" Node.text?
    stackName := ← fs.required "stack_name" Node.text?
    bindings := ← fs.withDefault "bindings" .empty (Node.table? Node.text?)
    alarmTags := ← fs.withDefault "alarm_tags" .empty (Node.table? Node.text?) }

/-- The record that a text says; what does not belong to it is passed over. -/
def ofText? (text : String) : Option DeploymentRecord := (Json.skim text).bind ofNode?

end DeploymentRecord

end Provision
