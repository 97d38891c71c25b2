import Provision.Remote

/-!
# The workflow service on the network

Definitions of workflows are registered, executed and deleted. Executions outlive what they were
made from and are found by the name of their workflow.
-/

namespace Provision

/-- An execution, and the workflow that it is of. -/
structure Execution where
  id : String
  workflow : String
  deriving DecidableEq

namespace Execution

/-- The execution that a document says. -/
def ofNode? (n : Node) : Option Execution := do
  let fs ← n.fields? ["id", "workflow_name"]
  some {
    id := ← fs.required "id" Node.text?
    workflow := ← fs.withDefault "workflow_name" "" Node.text? }

/-- The executions that a document lists. -/
def listOfNode? (n : Node) : Option (List Execution) := do
  let fs ← n.fields? ["executions"]
  fs.required "executions" (Node.list? ofNode?)

/-- Whether one text is somewhere in another. -/
def occurs (part : List Char) : List Char → Bool
  | [] => part.isEmpty
  | c :: cs => part.isPrefixOf (c :: cs) || occurs part cs

/-- Whether a text is somewhere in the name of the workflow. -/
def isOf (e : Execution) (pattern : String) : Bool := occurs pattern.toList e.workflow.toList

end Execution

namespace Remote

/-- The names of the workflows that a document lists. -/
def workflowsOfNode? (n : Node) : Option (List String) := do
  let fs ← n.fields? ["workflows"]
  fs.required "workflows" (Node.list? fun n => do
    let fs ← n.fields? ["name"]
    fs.required "name" Node.text?)

/-- The order to execute a workflow; its input is a text of its own. -/
def executionBody (workflow : String) (input : Table Value) : Value :=
  .ofMembers
    [("workflow_name", .string workflow), ("input", .string (Json.compact (.ofTable input)))]

/-- What the catalog calls workflow services. -/
def workflowService : String := "workflowv2"

variable {m : Type → Type} [Monad m]

/-- How the workflow service is reached. -/
structure WorkflowClient (m : Type → Type) where
  net : Network m
  identity : Identity (Remote m)
  region : Option String

namespace WorkflowClient

variable (c : WorkflowClient m)

/-- Sends a request. -/
def send (method : Method) (path : String) (content : Option Content) :
    ExceptT ServiceError (Remote m) Response :=
  Remote.call c.net c.identity workflowService c.region method path content

/-- Sends a request that has to be granted. -/
def sendGranted (method : Method) (path what : String) (content : Option Content) :
    ExceptT ServiceError (Remote m) Response := do
  let response ← c.send method path content
  Reply.lift (response.granted what)

/-- Registers a definition and tells the name of its workflow. -/
def register (definition : String) : ExceptT ServiceError (Remote m) String := do
  let response ← c.sendGranted .post "workflows" "workflow create" (some (.text definition))
  match ← Reply.lift (response.decode workflowsOfNode?) with
  | name :: _ => return name
  | [] => throw (.decode "workflow create returned no workflows")

/-- Executes a workflow and tells the identifier of the execution. -/
def execute (workflow : String) (input : Table Value) : ExceptT ServiceError (Remote m) String := do
  let response ← c.sendGranted .post "executions" "execution create"
    (some (.json (executionBody workflow input)))
  Execution.id <$> Reply.lift (response.decode Execution.ofNode?)

/-- Deletes a workflow. -/
def delete (workflow : String) : ExceptT ServiceError (Remote m) Unit := do
  let _ ← c.sendGranted .delete ("workflows/" ++ workflow) ("workflow " ++ workflow) none

/-- The identifiers of the executions of every workflow with a text in its name. -/
def executions (pattern : String) : ExceptT ServiceError (Remote m) (List String) := do
  let response ← c.sendGranted .get "executions" "executions" none
  let known ← Reply.lift (response.decode Execution.listOfNode?)
  return (known.filter fun e => e.isOf pattern).map Execution.id

/-- Deletes executions and tells how many there still were. Only the service itself can say that
one is gone. -/
def deleteAll : List String → Nat → ExceptT ServiceError (Remote m) Nat
  | [], n => pure n
  | id :: ids, n => do
    let response ← c.send .delete ("executions/" ++ id) none
    match response.granted ("execution " ++ id) with
    | .ok _ => deleteAll ids (n + 1)
    | .error e => if e.isNotFound then deleteAll ids n else throw e

/-- Deletes the executions of every workflow with a text in its name and tells how many there still
were. -/
def deleteExecutions (pattern : String) : ExceptT ServiceError (Remote m) Nat := do
  c.deleteAll (← c.executions pattern) 0

end WorkflowClient

end Remote

end Provision
