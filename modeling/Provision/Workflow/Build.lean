import Provision.Workflow

/-!
# Standard workflows

The workflows for deploying a workload, taking it down, probing whether it answers, and running
maintenance steps on it. Every name in a workflow begins with the target, so that several targets
can share one engine.
-/

namespace Provision

/-- What a workflow is to do. -/
inductive WorkflowAction where
  | deploy
  | teardown
  | healthProbe
  | maintenance
  deriving DecidableEq

namespace WorkflowAction

/-- The word for the action. -/
def word : WorkflowAction → String
  | .deploy => "deploy"
  | .teardown => "teardown"
  | .healthProbe => "health_probe"
  | .maintenance => "maintenance"

/-- The action of that word. -/
def ofWord? (word : String) : Option WorkflowAction :=
  if word = "deploy" then some .deploy
  else if word = "teardown" then some .teardown
  else if word = "health_probe" then some .healthProbe
  else if word = "maintenance" then some .maintenance
  else none

/-- A text with underscores for its hyphens. -/
def underscored (text : String) : String :=
  String.ofList (text.toList.map fun c => if c = '-' then '_' else c)

/-- The action that a text names; hyphens do as well as underscores. -/
def ofText? (text : String) : Option WorkflowAction := ofWord? (underscored text)

/-- What is said of a text that names no action. -/
def unknown (text : String) : String := "Unknown workflow action: " ++ underscored text

end WorkflowAction

namespace Workflow

/-- An expression that the engine evaluates. -/
def expression (body : String) : String := "<% " ++ body ++ " %>"

/-- The expression that reads a variable. -/
def variableValue (name : String) : String := expression ("$." ++ name)

/-- The expression that reads part of the result of a task. -/
def resultValue (task path : String) : String :=
  expression ("task(" ++ task ++ ").result." ++ path)

/-- A whole number among the parameters, or the default. -/
def count (parameters : Table Value) (key : String) (dflt : Nat) : Except WorkflowFault Nat :=
  match parameters.get? key with
  | none => .ok dflt
  | some v =>
    match v.asNat64? with
    | some n => .ok n
    | none => .error (.noCount key v)

/-- A parameter that may not be missing. -/
def requiredParameter (parameters : Table Value) (key : String) (action : WorkflowAction) :
    Except WorkflowFault Value :=
  match parameters.get? key with
  | some v => .ok v
  | none => .error (.missing action.word key)

/-- Creates a workload, waits for it to become active, and deletes it if it fails. -/
def deploy (name target : String) (parameters : Table Value) : Except WorkflowFault Workflow := do
  let create := target ++ "_create"
  let wait := target ++ "_wait_active"
  let delete := target ++ "_delete"
  let id := "id_" ++ target
  let status := "status_" ++ target
  let address := "mgmt_address_" ++ target
  let createTask : Task := { Task.new ("nimbus.create_workload body=" ++ variableValue "body") with
    input := .ofList [("body", .string (variableValue "body"))]
    publish := .ofList
      [(id, resultValue create "workload.id"),
       (status, resultValue create "workload.status"),
       (address, resultValue create "workload.mgmt_address")]
    onSuccess := [.always wait] }
  let retry : RetryPolicy := {
    count := ← count parameters "retry_count" 10
    delay := ← count parameters "retry_delay" 10
    continueOn := some (expression ("$." ++ status ++ " = \"PENDING_CREATE\""))
    breakOn := some (expression ("$." ++ status ++ " = \"ERROR\"")) }
  let waitTask : Task := { Task.new ("nimbus.show_workload id=" ++ variableValue id) with
    retry := some retry
    publish := .ofList
      [(status, resultValue wait "workload.status"),
       (address, resultValue wait "workload.mgmt_address")]
    onSuccess :=
      [.when (.ofList [(delete, expression ("$." ++ status ++ " = \"ERROR\""))])] }
  let deleteTask := Task.new ("nimbus.delete_workload id=" ++ variableValue id)
  return { named name with
    tasks := .ofList [(create, createTask), (wait, waitTask), (delete, deleteTask)]
    input := ["body"]
    inputValues := .ofList [("body", (parameters.get? "body").getD (.object []))]
    output := .ofList ([id, status, address].map fun key => (key, variableValue key)) }

/-- Deletes a workload. -/
def teardown (name target : String) (parameters : Table Value) :
    Except WorkflowFault Workflow := do
  let id := "id_" ++ target
  let workload ← requiredParameter parameters "workload_id" .teardown
  let force := ((parameters.get? "force").bind Value.asBool?).getD false
  let deleteTask : Task := { Task.new ("nimbus.delete_workload id=" ++ variableValue id) with
    input := .ofList [("force", .bool force)] }
  return { named name with
    tasks := .ofList [(target ++ "_delete", deleteTask)]
    input := [id]
    inputValues := .ofList [(id, workload)] }

/-- The task that sets the status of a target. -/
def mark (target status : String) : Task :=
  { Task.new "nimbus.update_status" with
    input := .ofList [("target", .string target), ("status", .string status)] }

/-- Probes an address until it answers, and sets the status accordingly. -/
def healthProbe (name target : String) (parameters : Table Value) :
    Except WorkflowFault Workflow := do
  let probe := target ++ "_probe"
  let markReachable := target ++ "_mark_reachable"
  let markUnreachable := target ++ "_mark_unreachable"
  let reachable := "reachable_" ++ target
  let address ← requiredParameter parameters "address" .healthProbe
  let answers (truth : String) : String := expression ("$." ++ reachable ++ " = " ++ truth)
  let retry : RetryPolicy := {
    count := ← count parameters "retry_count" 10
    delay := ← count parameters "retry_delay" 10
    continueOn := some (answers "false")
    breakOn := none }
  let probeTask : Task := { Task.new ("nimbus.probe address=" ++ variableValue "address") with
    retry := some retry
    publish := .ofList [(reachable, resultValue probe "reachable")]
    onSuccess :=
      [.when (.ofList [(markReachable, answers "true")]),
       .when (.ofList [(markUnreachable, answers "false")])] }
  return { named name with
    tasks := .ofList
      [(markReachable, mark target "ACTIVE"),
       (markUnreachable, mark target "ERROR"),
       (probe, probeTask)]
    input := ["address"]
    inputValues := .ofList [("address", address)]
    output := .ofList [(reachable, variableValue reachable)] }

/-- The name of a maintenance step, counted from one. -/
def stepName (target : String) (position : Nat) : String :=
  target ++ "_step_" ++ Numeral.ofNat position

/-- The tasks of maintenance steps, the first of them at `position`. Each starts the next, and the
last joins all. -/
def stepTasks (target : String) : Nat → List Value → Except WorkflowFault (List (String × Task))
  | _, [] => .ok []
  | position, .string action :: rest => do
    let task := match rest with
      | [] => { Task.new action with join := some "all" }
      | _ => { Task.new action with onSuccess := [.always (stepName target (position + 1))] }
    let tasks ← stepTasks target (position + 1) rest
    return (stepName target position, task) :: tasks
  | position, v :: _ => .error (.stepNoText position v)

/-- Runs maintenance steps in order. -/
def maintenance (name target : String) (parameters : Table Value) :
    Except WorkflowFault Workflow := do
  match (← requiredParameter parameters "steps" .maintenance).asList? with
  | none => throw .noSteps
  | some [] => throw .noSteps
  | some steps =>
    let tasks ← stepTasks target 1 steps
    return { named name with tasks := .ofList tasks }

/-- The workflow that takes an action on a target. -/
def build (target : String) (action : WorkflowAction) (parameters : Table Value) :
    Except WorkflowFault Workflow := do
  let name := target ++ "_" ++ action.word
  let w ← match action with
    | .deploy => deploy name target parameters
    | .teardown => teardown name target parameters
    | .healthProbe => healthProbe name target parameters
    | .maintenance => maintenance name target parameters
  w.validate
  return w

end Workflow

end Provision
