import Provision.Workflow

/-!
# Workflows in JSON

The form in which workflows are kept, and the definition that is registered with the engine. A task
leaves out what it does not have.
-/

namespace Provision

/-- A field, if there is a value for it. -/
def Value.fieldOf (name : String) (value : Option Value) : List (String × Value) :=
  match value with
  | some v => [(name, v)]
  | none => []

namespace RetryPolicy

/-- The policy in JSON. -/
def toValue (r : RetryPolicy) : Value :=
  .ofMembers <|
    [("count", .ofNat r.count), ("delay", .ofNat r.delay)]
    ++ Value.fieldOf "continue-on" (r.continueOn.map .string)
    ++ Value.fieldOf "break-on" (r.breakOn.map .string)

/-- The policy that a document says. -/
def ofNode? (n : Node) : Option RetryPolicy := do
  let fs ← n.fields? ["count", "delay", "continue-on", "break-on"]
  some {
    count := ← fs.required "count" (Node.nat? (Nat.pow 2 64))
    delay := ← fs.required "delay" (Node.nat? (Nat.pow 2 64))
    continueOn := ← fs.optional "continue-on" Node.text?
    breakOn := ← fs.optional "break-on" Node.text? }

end RetryPolicy

namespace Successor

/-- The successor in JSON: a text, or a mapping from tasks to conditions. -/
def toValue : Successor → Value
  | .always task => .string task
  | .when conditions => .ofTextTable conditions

/-- The successor that a document says. -/
def ofNode? (n : Node) : Option Successor :=
  match n.text? with
  | some task => some (.always task)
  | none => (n.table? Node.text?).map .when

end Successor

namespace Task

/-- The task in JSON. -/
def toValue (t : Task) : Value :=
  .ofMembers <|
    [("action", .string t.action)]
    ++ Value.fieldOf "input" (if t.input.isEmpty then none else some (.ofTable t.input))
    ++ Value.fieldOf "publish" (if t.publish.isEmpty then none else some (.ofTextTable t.publish))
    ++ Value.fieldOf "retry" (t.retry.map RetryPolicy.toValue)
    ++ Value.fieldOf "on-success"
      (if t.onSuccess.isEmpty then none else some (.list (t.onSuccess.map Successor.toValue)))
    ++ Value.fieldOf "join" (t.join.map .string)

/-- The task that a document says. -/
def ofNode? (n : Node) : Option Task := do
  let fs ← n.fields? ["action", "input", "publish", "retry", "on-success", "join"]
  some {
    action := ← fs.required "action" Node.text?
    input := ← fs.withDefault "input" .empty (Node.table? Node.value?)
    publish := ← fs.withDefault "publish" .empty (Node.table? Node.text?)
    retry := ← fs.optional "retry" RetryPolicy.ofNode?
    onSuccess := ← fs.withDefault "on-success" [] (Node.list? Successor.ofNode?)
    join := ← fs.optional "join" Node.text? }

end Task

namespace Workflow

/-- The tasks in JSON. -/
def tasksValue (w : Workflow) : Value := .ofTable (w.tasks.map fun _ t => t.toValue)

/-- The workflow in JSON. -/
def toValue (w : Workflow) : Value :=
  .ofMembers
    [("name", .string w.name),
     ("version", .string w.version),
     ("type", .string w.type),
     ("input", .ofTexts w.input),
     ("tasks", w.tasksValue),
     ("output", .ofTextTable w.output),
     ("input_values", .ofTable w.inputValues)]

/-- The workflow that a document says. -/
def ofNode? (n : Node) : Option Workflow := do
  let fs ← n.fields? ["name", "version", "type", "input", "tasks", "output", "input_values"]
  some {
    name := ← fs.required "name" Node.text?
    version := ← fs.required "version" Node.text?
    type := ← fs.required "type" Node.text?
    input := ← fs.required "input" (Node.list? Node.text?)
    tasks := ← fs.required "tasks" (Node.table? Task.ofNode?)
    output := ← fs.required "output" (Node.table? Node.text?)
    inputValues := ← fs.withDefault "input_values" .empty (Node.table? Node.value?) }

/-- What the definition says under the name of the workflow. -/
def body (w : Workflow) : Value :=
  .ofMembers <|
    [("type", .string w.type), ("tasks", w.tasksValue)]
    ++ Value.fieldOf "input" (if w.input.isEmpty then none else some (.ofTexts w.input))
    ++ Value.fieldOf "output" (if w.output.isEmpty then none else some (.ofTextTable w.output))

/-- The definition that is registered with the engine. -/
def definition (w : Workflow) : Value :=
  .ofMembers [("version", .string w.version), (w.name, w.body)]

end Workflow

end Provision
