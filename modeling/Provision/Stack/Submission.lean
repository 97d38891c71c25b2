import Provision.Document

/-!
# Submissions

What is handed over to have a stack created: the template of the stack, the texts of the templates
it nests by file name, and how the service is to go about it.
-/

namespace Provision

/-- Everything needed to create a stack. -/
structure Submission where
  stackName : String
  template : Value
  files : Table String
  parameters : Table Value
  timeoutMins : Option Nat
  disableRollback : Bool

namespace Submission

/-- The submission in JSON. -/
def toValue (s : Submission) : Value :=
  .ofMembers
    [("stack_name", .string s.stackName),
     ("template", s.template),
     ("files", .ofTextTable s.files),
     ("parameters", .ofTable s.parameters),
     ("timeout_mins", .ofOption .ofNat s.timeoutMins),
     ("disable_rollback", .bool s.disableRollback)]

/-- The submission that a document says. -/
def ofNode? (n : Node) : Option Submission := do
  let fs ← n.fields?
    ["stack_name", "template", "files", "parameters", "timeout_mins", "disable_rollback"]
  some {
    stackName := ← fs.required "stack_name" Node.text?
    template := ← fs.required "template" Node.value?
    files := ← fs.withDefault "files" .empty (Node.table? Node.text?)
    parameters := ← fs.withDefault "parameters" .empty (Node.table? Node.value?)
    timeoutMins := ← fs.optional "timeout_mins" (Node.nat? (Nat.pow 2 32))
    disableRollback := ← fs.withDefault "disable_rollback" false Node.bool? }

end Submission

end Provision
