import Provision.Command
import Provision.Command.Record
import Provision.Lifecycle.Scale
import Provision.Parameters
import Provision.Plan
import Provision.Remote.Stacks
import Provision.Remote.Workflows
import Provision.Workflow.Codec
import Provision.Yaml.Printer
import Provision.Descriptor.Codec

/-!
# The program

Commands are carried out on a machine, which has files, an output and a network. What goes wrong is
told with its causes, each on a line of its own.
-/

namespace Provision

/-- What a command needs of the machine that it is carried out on. A file that cannot be read or
written is told why. -/
structure Machine (m : Type → Type) where
  readFile : String → m (Except String String)
  writeFile : String → String → m (Except String Unit)
  print : String → m Unit
  /-- The password in the environment. -/
  password : Option String
  network : Network m
  /-- Waits some milliseconds. -/
  pause : Nat → m Unit
  /-- An identifier that no workload has had before. -/
  newWorkloadId : m String

/-- What went wrong, and the causes of it, the nearest first. -/
structure Failure where
  message : String
  causes : List String
  deriving DecidableEq

namespace Failure

/-- A fault as a failure; a failed call is the cause of the fault that it makes. -/
def ofFault (f : Fault) : Failure :=
  ⟨f.message, match f with
    | .service e => [e.message]
    | _ => []⟩

/-- A failed call as a failure of its own. -/
def ofService (e : ServiceError) : Failure := ⟨e.message, []⟩

/-- The lines of a cause after its first, under it. -/
def indented (indent : String) (text : String) : String :=
  String.join ((text.toList.splitOn '\n').intersperse ['\n'] |>.map fun line =>
    if line = ['\n'] then "\n" ++ indent else String.ofList line)

/-- A number before its cause, in five places. -/
def numbered (n : Nat) (text : String) : String :=
  let digits := Numeral.digits n
  String.ofList (List.replicate (5 - digits.length) ' ' ++ digits) ++ ": "
    ++ indented "       " text

/-- The causes, numbered if there are several. -/
def causesText : List String → String
  | [] => ""
  | [cause] => "\n\nCaused by:\n    " ++ indented "    " cause
  | causes => "\n\nCaused by:" ++ String.join (causes.zipIdx.map fun (c, n) => "\n" ++ numbered n c)

/-- What is told of a failure. -/
def text (f : Failure) : String := "Error: " ++ f.message ++ causesText f.causes ++ "\n"

end Failure

/-- A command being carried out. -/
abbrev Carried (m : Type → Type) := ExceptT Failure (Remote m)

namespace Machine

variable {m : Type → Type} [Monad m] (machine : Machine m)

/-- Does what may fail for want of something in the input or on the network. -/
def attempt (x : ExceptT Fault (Remote m) α) : Carried m α := x.adapt Failure.ofFault

/-- Takes an outcome as it is. -/
def settle (x : Except Fault α) : Carried m α := ExceptT.mk (pure (x.mapError Failure.ofFault))

/-- Reads a file; `purpose` is told if that fails. -/
def read (purpose path : String) : Carried m String := do
  match ← (machine.readFile path : m (Except String String)) with
  | .ok text => return text
  | .error reason => throw ⟨"reading " ++ purpose ++ " " ++ path, [reason]⟩

/-- Writes a file; `purpose` is told if that fails. -/
def write (purpose path text : String) : Carried m Unit := do
  match ← (machine.writeFile path text : m (Except String Unit)) with
  | .ok () => return ()
  | .error reason => throw ⟨"writing " ++ purpose ++ " " ++ path, [reason]⟩

/-- Prints a text. -/
def say (text : String) : Carried m Unit := (machine.print text : m Unit)

/-- Prints a value. -/
def sayValue (v : Value) : Carried m Unit := machine.say (Json.pretty v ++ "\n")

/-- The settings, with the options that win over them. -/
def settings (o : CommonOptions) : Carried m Settings := do
  let s ← match o.config with
    | some path => do
      let text ← (machine.readFile path : m (Except String String))
      settle (Settings.ofFile path text machine.password)
    | none => pure (Settings.default.withPassword machine.password)
  return { s with
    identity := { s.identity with region := o.region <|> s.identity.region }
    lifecycle := { s.lifecycle with
      retries := o.retries.getD s.lifecycle.retries
      waitSeconds := o.retryWait.getD s.lifecycle.waitSeconds } }

/-- The orchestration service that the settings lead to. -/
def stackClient (s : Settings) : Remote.StackClient m :=
  ⟨machine.network, s.identity.identity machine.network, s.identity.region⟩

/-- The workflow service that the settings lead to. -/
def workflowClient (s : Settings) : Remote.WorkflowClient m :=
  ⟨machine.network, s.identity.identity machine.network, s.identity.region⟩

/-- The lifecycles of stacks on the orchestration service. -/
def lifecycle (s : Settings) : Lifecycle (Remote m) where
  service := (machine.stackClient s).orchestration
  pause ms := (machine.pause ms : m Unit)
  settings := s.lifecycle

/-- The descriptor and the parameters of a deployment. -/
def deployment (files : DeploymentFiles) : Carried m (Descriptor × Option Parameters) := do
  let text ← machine.read "descriptor" files.descriptor
  let some d := (Yaml.read text).bind Descriptor.ofNode? | throw (.ofFault .unreadableYaml)
  match files.params with
  | none => return (d, none)
  | some path =>
    let text ← machine.read "parameters" path
    return (d, some (← settle (Parameters.ofNode (Yaml.read text))))

/-- The plan of a deployment. -/
def plan (s : Settings) (files : DeploymentFiles) : Carried m Plan := do
  let (d, parameters) ← machine.deployment files
  let id ← (machine.newWorkloadId : m String)
  attempt (d.plan s.compiler parameters (machine.stackClient s).orchestration.catalog id)

/-- A plan as it is shown. -/
def planValue (p : Plan) : Value :=
  .ofMembers
    [("template", p.graph.toTemplate),
     ("files", .ofTexts (Entries.names p.graph.files)),
     ("bindings", .ofTextTable p.bindings),
     ("alarm_tags", .ofTextTable p.alarmTags),
     ("monitoring", p.monitoring.toValue)]

/-- Compiles a descriptor and shows the plan, or writes it to a file. -/
def compile (s : Settings) (files : DeploymentFiles) (output : Option String) :
    Carried m Unit := do
  let p ← machine.plan s files
  match output with
  | some path => machine.write "plan" path (Json.pretty (planValue p))
  | none => machine.sayValue (planValue p)

/-- Addresses by component as values. -/
def endpointsValue (e : Endpoints) : Value := .ofTable (e.map fun _ vs => .list vs)

/-- Creates the stack of a descriptor, leaves a record of it and waits for it. -/
def deploy (s : Settings) (files : DeploymentFiles) (name : String) (record : Option String) :
    Carried m Unit := do
  let p ← machine.plan s files
  let l := machine.lifecycle s
  let id ← attempt (l.create name p.graph)
  if let some path := record then
    machine.write "deployment record" path
      (DeploymentRecord.text ⟨id, name, p.bindings, p.alarmTags⟩)
  let budget := s.lifecycle.budget
  let addresses ←
    if p.bindings.isEmpty then Value.ofTable <$> attempt (l.awaitAddresses id budget)
    else endpointsValue <$> attempt (l.awaitGroupedAddresses id p.bindings budget)
  machine.sayValue (.ofMembers
    [("stack_id", .string id),
     ("management_endpoints", addresses),
     ("monitoring", p.monitoring.toValue)])

/-- The record in a file. -/
def record (path : String) : Carried m DeploymentRecord := do
  let text ← machine.read "deployment record" path
  let some r := DeploymentRecord.ofText? text | throw (.ofFault .unreadableJson)
  return r

/-- Signals a scaling policy and waits until the signal has been acted on. -/
def scale (s : Settings) (path : String) (request : ScaleRequest) : Carried m Unit := do
  let r ← machine.record path
  let l := machine.lifecycle s
  let before ← attempt (l.scale r.stackId r.bindings request)
  let endpoints ← attempt (l.awaitScaled r.stackId r.bindings request before s.lifecycle.budget)
  machine.sayValue (endpointsValue endpoints)

/-- Deletes a stack and waits until it is gone, if that is wanted. -/
def delete (s : Settings) (target : DeleteTarget) (wait : Bool) : Carried m Unit := do
  let id ← match target with
    | .stack id => pure id
    | .record path => DeploymentRecord.stackId <$> machine.record path
  let l := machine.lifecycle s
  attempt (l.delete id)
  if wait then attempt (l.awaitDeleted id s.lifecycle.budget)

/-- Shows the resources of a stack. -/
def inventory (s : Settings) (id : String) : Carried m Unit := do
  let entries ← attempt ((machine.lifecycle s).inventory id)
  machine.sayValue (.ofTable (entries.map fun _ e => e.toValue))

/-- The parameters of a workflow. -/
def workflowParameters : Option String → Carried m (Table Value)
  | none => pure .empty
  | some path => do
    let text ← machine.read "workflow parameters" path
    let some ps := (Yaml.read text).bind (Node.table? Node.value?)
      | throw (.ofFault .unreadableYaml)
    return ps

/-- Registers a definition in place of one that was left there before, and executes it if that is
wanted. -/
def register (s : Settings) (w : Workflow) (definition : String) (execute : Bool) :
    Carried m Unit := do
  let c := machine.workflowClient s
  let _ ← (((c.delete w.name).run : Remote m (Except ServiceError Unit)))
  let name ← (c.register definition).adapt Failure.ofService
  let shown ←
    if execute then do
      let id ← (c.execute name w.inputValues).adapt Failure.ofService
      pure [("execution_id", .string id)]
    else pure []
  machine.sayValue (.ofMembers (("workflow", .string name) :: shown))

/-- Makes a workflow and shows it, or registers it. -/
def workflow (s : Settings) (target : String) (action : WorkflowAction) (params : Option String)
    (register execute : Bool) : Carried m Unit := do
  let ps ← machine.workflowParameters params
  let w ← settle ((Workflow.build target action ps).mapError Fault.invalidWorkflow)
  let definition := Yaml.print w.definition
  if register then machine.register s w definition execute else machine.say definition

/-- Carries out a command. -/
def carryOut (o : CommonOptions) (c : Command) : Carried m Unit := do
  let s ← machine.settings o
  match c with
  | .compile files output => machine.compile s files output
  | .deploy files name record => machine.deploy s files name record
  | .scale path policy direction => machine.scale s path ⟨policy, direction⟩
  | .delete target wait => machine.delete s target wait
  | .inventory id => machine.inventory s id
  | .workflow target action params register execute =>
    machine.workflow s target action params register execute

/-- What is told to someone who asks for help, or for what cannot be made sense of. -/
def usage : String :=
  "Usage: nimbus [OPTIONS] <COMMAND>\n\nCommands: "
    ++ String.intercalate ", " (CommandForm.all.map Prod.fst) ++ ", help\n"

/-- Carries out what arguments ask for. The answer is the exit code and what is told of a
failure. -/
def obey (arguments : List String) : m (Nat × String) := do
  match Asked.ofArguments arguments with
  | .misuse => return (2, usage)
  | .help => do
    machine.print usage
    return (0, "")
  | .run o c =>
    match ← ((machine.carryOut o c).run.run .fresh) with
    | (.ok (), _) => return (0, "")
    | (.error f, _) => return (1, f.text)

end Machine

end Provision
