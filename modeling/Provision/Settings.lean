import Provision.Compile
import Provision.Yaml.Reader

/-!
# Settings

How the identity service is reached, how patiently stacks are waited for, and what every compiled
workload gets. Settings are one document with a section for each; what it leaves out keeps its
default. The password is read but never written.
-/

namespace Provision

/-- Where the identity service is, and who asks it. -/
structure IdentitySettings where
  /-- The address of the service, with its version. -/
  authUrl : String
  username : String
  password : Option String
  userDomain : String
  project : String
  projectDomain : String
  /-- The region in which endpoints are looked up. -/
  region : Option String
  /-- The interface of the endpoints that are used. -/
  interface : String
  deriving DecidableEq

namespace IdentitySettings

/-- The administrator of a service on the same machine. -/
def default : IdentitySettings where
  authUrl := "http://localhost:5000/v3"
  username := "admin"
  password := none
  userDomain := "Default"
  project := "admin"
  projectDomain := "Default"
  region := none
  interface := "public"

/-- The settings in JSON, without the password. -/
def toValue (s : IdentitySettings) : Value :=
  .ofMembers
    [("auth_url", .string s.authUrl),
     ("username", .string s.username),
     ("user_domain_name", .string s.userDomain),
     ("project_name", .string s.project),
     ("project_domain_name", .string s.projectDomain),
     ("region", .ofOptionalText s.region),
     ("interface", .string s.interface)]

/-- The settings that a document says. -/
def ofNode? (n : Node) : Option IdentitySettings := do
  let fs ← n.fields?
    ["auth_url", "username", "password", "user_domain_name", "project_name",
     "project_domain_name", "region", "interface"]
  some {
    authUrl := ← fs.withDefault "auth_url" default.authUrl Node.text?
    username := ← fs.withDefault "username" default.username Node.text?
    password := ← fs.optional "password" Node.text?
    userDomain := ← fs.withDefault "user_domain_name" default.userDomain Node.text?
    project := ← fs.withDefault "project_name" default.project Node.text?
    projectDomain := ← fs.withDefault "project_domain_name" default.projectDomain Node.text?
    region := ← fs.optional "region" Node.text?
    interface := ← fs.withDefault "interface" default.interface Node.text? }

end IdentitySettings

/-- How often a stack is looked at while waiting for it, and the pause in between. -/
structure Budget where
  retries : Nat
  intervalMs : Nat
  deriving DecidableEq

/-- How stacks are created and waited for. -/
structure LifecycleSettings where
  /-- Looks at a stack in one wait. -/
  retries : Nat
  /-- Seconds between two looks. -/
  waitSeconds : Nat
  /-- After how many minutes the service itself gives up a creation. -/
  timeoutMins : Option Nat
  /-- Whether a stack that failed stays as it is. -/
  disableRollback : Bool
  deriving DecidableEq

namespace LifecycleSettings

/-- Ten minutes of patience. -/
def default : LifecycleSettings where
  retries := 60
  waitSeconds := 10
  timeoutMins := none
  disableRollback := false

/-- The patience that the settings give. -/
def budget (s : LifecycleSettings) : Budget := ⟨s.retries, 1000 * s.waitSeconds⟩

/-- The settings in JSON. -/
def toValue (s : LifecycleSettings) : Value :=
  .ofMembers
    [("stack_retries", .ofNat s.retries),
     ("stack_retry_wait_secs", .ofNat s.waitSeconds),
     ("timeout_mins", .ofOption .ofNat s.timeoutMins),
     ("disable_rollback", .bool s.disableRollback)]

/-- The settings that a document says. -/
def ofNode? (n : Node) : Option LifecycleSettings := do
  let fs ← n.fields? ["stack_retries", "stack_retry_wait_secs", "timeout_mins", "disable_rollback"]
  some {
    retries := ← fs.withDefault "stack_retries" default.retries (Node.nat? (Nat.pow 2 32))
    waitSeconds := ← fs.withDefault "stack_retry_wait_secs" default.waitSeconds
      (Node.nat? (Nat.pow 2 64))
    timeoutMins := ← fs.optional "timeout_mins" (Node.nat? (Nat.pow 2 32))
    disableRollback := ← fs.withDefault "disable_rollback" false Node.bool? }

end LifecycleSettings

/-- The patience that nobody has changed. -/
def Budget.default : Budget := LifecycleSettings.default.budget

namespace CompilerSettings

/-- The settings in JSON. -/
def toValue (s : CompilerSettings) : Value :=
  .single "flavor_extra_specs" (.ofTextTable s.flavorExtraSpecs)

/-- The settings that a document says. -/
def ofNode? (n : Node) : Option CompilerSettings := do
  let fs ← n.fields? ["flavor_extra_specs"]
  some { flavorExtraSpecs := ← fs.withDefault "flavor_extra_specs" .empty (Node.table? Node.text?) }

end CompilerSettings

/-- All settings. -/
structure Settings where
  identity : IdentitySettings
  lifecycle : LifecycleSettings
  compiler : CompilerSettings
  deriving DecidableEq

namespace Settings

/-- Nothing configured. -/
def default : Settings := ⟨.default, .default, .default⟩

/-- The settings in JSON, without the password. -/
def toValue (s : Settings) : Value :=
  .ofMembers
    [("identity", s.identity.toValue),
     ("driver", s.lifecycle.toValue),
     ("compiler", s.compiler.toValue)]

/-- The settings that a document says. -/
def ofNode? (n : Node) : Option Settings := do
  let fs ← n.fields? ["identity", "driver", "compiler"]
  some {
    identity := ← fs.withDefault "identity" .default IdentitySettings.ofNode?
    lifecycle := ← fs.withDefault "driver" .default LifecycleSettings.ofNode?
    compiler := ← fs.withDefault "compiler" .default CompilerSettings.ofNode? }

/-- The settings that a text says; a blank text says nothing. -/
def ofText (text : String) : Except Fault Settings :=
  if (Blank.trim text).isEmpty then .ok default
  else
    match (Yaml.read text).bind ofNode? with
    | some s => .ok s
    | none => .error .unreadableYaml

/-- The name of the environment variable whose password wins over that of the settings. -/
def passwordVariable : String := "NIMBUS_PASSWORD"

/-- Takes the password of the environment, if there is one that is not empty. -/
def withPassword (s : Settings) (password : Option String) : Settings :=
  match password with
  | some p => if p.isEmpty then s else { s with identity := { s.identity with password := some p } }
  | none => s

/-- The settings of a file: `text` is what reading the file gave, or why it could not be read, and
`password` is what the environment says. -/
def ofFile (path : String) (text : Except String String) (password : Option String) :
    Except Fault Settings :=
  match text with
  | .error reason => .error (.settings ("Cannot read " ++ path ++ ": " ++ reason))
  | .ok text => (ofText text).map fun s => s.withPassword password

end Settings

end Provision
