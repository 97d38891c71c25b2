import Provision.Fault
import Provision.Acyclic
import Provision.Document

/-!
# Workflows

A workflow is a set of named tasks, each a remote action, together with what starts after each. It
is sound if every task that may start is one of the workflow and nothing can start itself again.
-/

namespace Provision

/-- How often a task is tried again. -/
structure RetryPolicy where
  count : Nat
  /-- Seconds between two tries. -/
  delay : Nat
  continueOn : Option String
  breakOn : Option String
  deriving DecidableEq

/-- What starts after a task: another one, or those whose condition holds. -/
inductive Successor where
  | always (task : String)
  | when (conditions : Table String)
  deriving DecidableEq

/-- The tasks that may start. -/
def Successor.tasks : Successor → List String
  | .always task => [task]
  | .when conditions => conditions.names

/-- A remote action. -/
structure Task where
  action : String
  input : Table Value
  publish : Table String
  retry : Option RetryPolicy
  onSuccess : List Successor
  join : Option String

/-- A task of which only the action is said. -/
def Task.new (action : String) : Task := ⟨action, .empty, .empty, none, [], none⟩

/-- The tasks that may start after a task. -/
def Task.successors (t : Task) : List String := t.onSuccess.flatMap Successor.tasks

/-- Named tasks, and the input they are started with. -/
structure Workflow where
  name : String
  version : String
  type : String
  input : List String
  tasks : Table Task
  output : Table String
  inputValues : Table Value

namespace Workflow

/-- The version of the definition language. -/
def languageVersion : String := "2.0"

/-- The type of workflows whose tasks run along their successors. -/
def directType : String := "direct"

/-- A workflow without tasks. -/
def named (name : String) : Workflow :=
  ⟨name, languageVersion, directType, [], .empty, .empty, .empty⟩

/-- The tasks that may start after the task of that name. -/
def successors (w : Workflow) (name : String) : List String :=
  match w.tasks.get? name with
  | some t => t.successors
  | none => []

/-- The first thing wrong with the workflow. -/
def fault? (w : Workflow) : Option WorkflowFault :=
  let unknown := w.tasks.entries.findSome? fun (name, t) =>
    (t.successors.find? fun s => !w.tasks.contains s).map fun s => (name, s)
  match unknown with
  | some (name, s) => some (.unknownSuccessor name s)
  | none => (Acyclic.onCycle? w.successors w.tasks.names).map .cycle

/-- Passes a sound workflow, and refuses any other with the first thing wrong. -/
def validate (w : Workflow) : Except WorkflowFault Unit :=
  match w.fault? with
  | some f => .error f
  | none => .ok ()

end Workflow

end Provision
