import Provision.Scaling
import Provision.Workflow.Build

/-!
# Commands

What the program can be asked to do, and how it is asked: a command with its options, and options
that go with every command and may stand before it or after it. An option has a value of its own,
joined to it by an equals sign or in the next argument; a switch has none. Nothing may be said twice
in one place.
-/

namespace Provision

/-- Options that go with every command. -/
structure CommonOptions where
  /-- The file that the settings are in. -/
  config : Option String
  /-- The region in which endpoints are looked up, instead of that of the settings. -/
  region : Option String
  retries : Option Nat
  retryWait : Option Nat
  /-- The folder that records of the work are written to. -/
  logDir : Option String
  deriving DecidableEq

/-- The files that a deployment is made from. -/
structure DeploymentFiles where
  descriptor : String
  params : Option String
  deriving DecidableEq

/-- What can be deleted: the stack of a deployment record, or one named by its identifier. -/
inductive DeleteTarget where
  | record (path : String)
  | stack (id : String)
  deriving DecidableEq

/-- What the program can be asked to do. -/
inductive Command where
  | compile (files : DeploymentFiles) (output : Option String)
  | deploy (files : DeploymentFiles) (name : String) (record : Option String)
  | scale (record policy : String) (direction : ScaleDirection)
  | delete (target : DeleteTarget) (wait : Bool)
  | inventory (stack : String)
  | workflow (target : String) (action : WorkflowAction) (params : Option String)
      (register execute : Bool)
  deriving DecidableEq

/-- What the arguments ask for. -/
inductive Asked where
  | run (options : CommonOptions) (command : Command)
  | help
  /-- The arguments make no sense. -/
  | misuse
  deriving DecidableEq

/-- What a command can be told: options with values, and switches. -/
structure CommandForm where
  options : List String
  switches : List String

namespace CommandForm

/-- The options that go with every command. -/
def common : CommandForm := ⟨["config", "region", "retries", "retry-wait", "log-dir"], []⟩

/-- Every command by its word. -/
def all : List (String × CommandForm) :=
  [("compile", ⟨["descriptor", "params", "output"], []⟩),
   ("deploy", ⟨["descriptor", "params", "name", "record"], []⟩),
   ("scale", ⟨["record", "policy", "direction"], []⟩),
   ("delete", ⟨["record", "stack-id"], ["no-wait"]⟩),
   ("inventory", ⟨["stack-id"], []⟩),
   ("workflow", ⟨["target", "action", "params"], ["register", "execute"]⟩)]

/-- The form with the options that go with every command. -/
def withCommon (f : CommandForm) : CommandForm := ⟨common.options ++ f.options, f.switches⟩

end CommandForm

/-- What has been said in one place. -/
structure Said where
  values : Table String
  switches : NameSet

namespace Said

/-- Nothing has been said. -/
def nothing : Said := ⟨.empty, .empty⟩

/-- The options whose values are paths, which may not be empty. -/
def paths : List String := ["config", "log-dir", "descriptor", "params", "output", "record"]

/-- The number of looks in one wait. -/
def retries? (value : String) : Option Nat := do
  let i ← Numeral.readInt64 value
  if 0 ≤ i ∧ i < Nat.pow 2 32 then some i.toNat else none

/-- The number of seconds between two looks. -/
def retryWait? (value : String) : Option Nat := Numeral.readNat (Nat.pow 2 64) value

/-- Whether an option may have a value. -/
def fits (name value : String) : Bool :=
  if paths.contains name then !value.isEmpty
  else if name = "retries" then (retries? value).isSome
  else if name = "retry-wait" then (retryWait? value).isSome
  else if name = "direction" then (ScaleDirection.ofText? value).isSome
  else if name = "action" then (WorkflowAction.ofText? value).isSome
  else true

/-- Says a value. -/
def addValue (s : Said) (name value : String) : Option Said :=
  if s.values.contains name || !fits name value then none
  else some { s with values := s.values.put name value }

/-- Sets a switch. -/
def addSwitch (s : Said) (name : String) : Option Said :=
  if s.switches.contains name then none else some { s with switches := s.switches.add name }

/-- What is said in two places; where both say something the second one wins. -/
def merge (s t : Said) : Said := ⟨s.values.extend t.values, s.switches.union t.switches⟩

/-- The options that go with every command. -/
def commonOptions (s : Said) : CommonOptions where
  config := s.values.get? "config"
  region := s.values.get? "region"
  retries := (s.values.get? "retries").bind retries?
  retryWait := (s.values.get? "retry-wait").bind retryWait?
  logDir := s.values.get? "log-dir"

/-- The files of a deployment. -/
def files? (s : Said) : Option DeploymentFiles := do
  some ⟨← s.values.get? "descriptor", s.values.get? "params"⟩

/-- What is to be deleted: exactly one of the two ways to say it has to be used. -/
def deleteTarget? (s : Said) : Option DeleteTarget :=
  match s.values.get? "record", s.values.get? "stack-id" with
  | some path, none => some (.record path)
  | none, some id => some (.stack id)
  | _, _ => none

/-- The command of a word, if all is said that it needs. -/
def command? (s : Said) (word : String) : Option Command :=
  let value := s.values.get?
  let isSet := s.switches.contains
  match word with
  | "compile" => do some (.compile (← s.files?) (value "output"))
  | "deploy" => do some (.deploy (← s.files?) (← value "name") (value "record"))
  | "scale" => do
    some (.scale (← value "record") (← value "policy")
      (← (value "direction").bind ScaleDirection.ofText?))
  | "delete" => do some (.delete (← s.deleteTarget?) (!isSet "no-wait"))
  | "inventory" => do some (.inventory (← value "stack-id"))
  | "workflow" => do
    some (.workflow (← value "target") (← (value "action").bind WorkflowAction.ofText?)
      (value "params") (isSet "register" || isSet "execute") (isSet "execute"))
  | _ => none

end Said

/-- One argument, taken apart. -/
inductive Argument where
  /-- Two hyphens; only plain words may follow. -/
  | escape
  /-- A long option, and the value joined to it. -/
  | option (name : String) (value : Option String)
  /-- A short option. -/
  | short (letter : Char)
  | word (text : String)
  deriving DecidableEq

/-- Takes an argument apart. A hyphen alone is a word. -/
def Argument.ofText (text : String) : Argument :=
  match text.toList with
  | ['-', '-'] => .escape
  | '-' :: '-' :: cs =>
    let name := cs.takeWhile (· != '=')
    .option (String.ofList name) (match cs.drop name.length with
      | [] => none
      | _ :: value => some (String.ofList value))
  | '-' :: c :: _ => .short c
  | _ => .word text

/-- What came of reading a place: everything that was said there and the arguments left over, which
begin with the next word, if there is one. -/
inductive Heard where
  | said (said : Said) (rest : List String)
  | help
  | misuse

/-- Reads options up to the next word. -/
def CommandForm.hear (f : CommandForm) (s : Said) : List String → Heard
  | [] => .said s []
  | text :: rest =>
    match Argument.ofText text with
    | .word _ => .said s (text :: rest)
    | .escape => if rest.isEmpty then .said s [] else .misuse
    | .short c => if c = 'h' then .help else .misuse
    | .option name joined =>
      if f.options.contains name then
        match joined, rest with
        | some value, rest => proceed (s.addValue name value) rest
        | none, [] => .misuse
        | none, value :: rest =>
          match Argument.ofText value with
          | .word _ => proceed (s.addValue name value) rest
          | _ => .misuse
      else if joined.isSome then .misuse
      else if f.switches.contains name then proceed (s.addSwitch name) rest
      else if name = "help" then .help
      else .misuse
where
  /-- Reads on, unless what was just read could not be said. -/
  proceed : Option Said → List String → Heard
    | some s, rest => hear f s rest
    | none, _ => .misuse

/-- What the words after the word for help ask for. -/
def askedHelp : List String → Asked
  | [] => .help
  | [word] => if word = "help" || (CommandForm.all.lookup word).isSome then .help else .misuse
  | _ => .misuse

/-- What arguments ask for. -/
def Asked.ofArguments (arguments : List String) : Asked :=
  match CommandForm.common.hear .nothing arguments with
  | .help => .help
  | .misuse | .said _ [] => .misuse
  | .said before (word :: rest) =>
    if word = "help" then askedHelp rest
    else
      match CommandForm.all.lookup word with
      | none => .misuse
      | some form =>
        match form.withCommon.hear .nothing rest with
        | .help => .help
        | .misuse | .said _ (_ :: _) => .misuse
        | .said after [] =>
          match after.command? word with
          | some command => .run (before.merge after).commonOptions command
          | none => .misuse

end Provision
