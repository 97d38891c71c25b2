import Provision.Stack.Status
import Provision.Json.Printer

/-!
# Faults

Everything that can go wrong, by cause, and the one place where causes get their wording. A fault is
an input that cannot be compiled, a wait whose budget ran out, a failure that the remote service
itself reported, or something else.
-/

namespace Provision

/-- Why a single call of a remote service failed. -/
inductive ServiceError where
  /-- What was asked for does not exist. -/
  | notFound (what : String)
  /-- The service answered and refused. -/
  | rejected (status : Nat) (message : String)
  /-- The service was not reached, or the connection broke. -/
  | transport (message : String)
  /-- The service answered with something that cannot be read. -/
  | decode (message : String)
  /-- Credentials are missing, expired or refused. -/
  | auth (message : String)
  deriving DecidableEq

namespace ServiceError

/-- The wording. -/
def message : ServiceError → String
  | .notFound what => "Not found: " ++ what
  | .rejected status message =>
    "Rejected with status " ++ Numeral.ofNat status ++ ": " ++ message
  | .transport message => "Transport error: " ++ message
  | .decode message => "Decode error: " ++ message
  | .auth message => "Authentication error: " ++ message

/-- Whether the call failed because what it asked for does not exist. -/
def isNotFound : ServiceError → Bool
  | .notFound _ => true
  | _ => false

end ServiceError

/-- Why a capability or an attachment of a component cannot be mapped. -/
inductive CapabilityFault where
  | unusableValue (field : String) (value : Value)
  | pageSizeOutOfRange (megabytes : Int)
  | pageSizeNoNumber (value : Value)
  | numaUnsupportedKey (node key : String)
  | numaNoId (node : String)
  | numaMemory (node : String) (value : Value)
  | unsupportedCpuKey (key : String)
  | imageWithoutFile
  /-- The property that should take in others holds something that is no mapping; `shown` is what
  it holds, as diagnostics show it. -/
  | passthroughNoMapping (property shown : String)
  | linkNoNetwork (link : String)
  | bindingNoCompute (binding : String)
  | severalManagement
  | attachedToNoCompute (target : String)

/-- Why a scaling policy is refused. -/
inductive ScalingFault where
  | minExceedsMax (least greatest : Nat)
  | desiredOutside (desired least greatest : Nat)
  | noIncrement
  | noTargets
  | targetNoCompute (target : String)
  | targetNotInGraph (target : String)

/-- Why a graph is refused. -/
inductive GraphFault where
  | duplicate (name : String)
  | unknownReference (source target : String)
  | unknownSource (output source : String)
  /-- The references form a cycle through `name`. -/
  | cycle (name : String)
  /-- A resource that a scaling group owns is referenced from outside. -/
  | shared (resource group referrer : String)
  /-- The fault is in a nested template. -/
  | inFile (file : String) (fault : GraphFault)

/-- Why a workflow is refused. -/
inductive WorkflowFault where
  | unknownSuccessor (task successor : String)
  /-- The successors form a cycle through `task`. -/
  | cycle (task : String)
  | noCount (parameter : String) (value : Value)
  | missing (action parameter : String)
  | noSteps
  | stepNoText (position : Nat) (value : Value)

/-- Everything that can go wrong. -/
inductive Fault where
  | missingParameter (name : String)
  | unresolvedInput (name : String)
  /-- The parameters are no mapping: `found` says what they are, if they could be read at all. -/
  | malformedParameters (found : Option String)
  | addressesNoList (component network : String)
  | metadataNotMatched (alarm metadata : String)
  | invalidCapability (component : String) (fault : CapabilityFault)
  | invalidScalingPolicy (policy : String) (fault : ScalingFault)
  | invalidGraph (fault : GraphFault)
  | submissionRejected (reason : String)
  | createTimedOut (stack : String) (last : Option StackStatus)
  | createFailed (stack reason : String)
  | scaleTimedOut (stack : String) (last : Option String)
  | scaleFailed (stack reason : String)
  | deleteTimedOut (stack : String) (last : Option StackStatus)
  | deleteFailed (stack reason : String)
  | invalidWorkflow (fault : WorkflowFault)
  | unknownScalingPolicy (policy : String)
  | service (error : ServiceError)
  /-- A text is no JSON, or not of the type asked for. -/
  | unreadableJson
  /-- A text is no YAML, or not of the type asked for. -/
  | unreadableYaml
  /-- A file cannot be read or written. -/
  | fileAccess
  | settings (reason : String)

namespace CapabilityFault

/-- The wording. -/
def message : CapabilityFault → String
  | .unusableValue field value => field ++ " has unusable value " ++ Json.compact value
  | .pageSizeOutOfRange mb => "mem_page_size " ++ Numeral.ofInt mb ++ " MB is out of range"
  | .pageSizeNoNumber value =>
    "mem_page_size must be small, large, any or a number, got " ++ Json.compact value
  | .numaUnsupportedKey node key => "numa node " ++ node ++ " has unsupported key " ++ key
  | .numaNoId node => "numa node " ++ node ++ " has no id"
  | .numaMemory node value => "numa node " ++ node ++ " mem_size " ++ Json.compact value
  | .unsupportedCpuKey key => "unsupported cpu_allocation key " ++ key
  | .imageWithoutFile => "image artifact has no file"
  | .passthroughNoMapping property shown => property ++ " must be a mapping, got " ++ shown
  | .linkNoNetwork link => "link " ++ link ++ " is not a network link component"
  | .bindingNoCompute binding => "binding " ++ binding ++ " is not a compute component"
  | .severalManagement => "more than one management network"
  | .attachedToNoCompute target => "attached_to " ++ target ++ " is not a compute component"

end CapabilityFault

namespace ScalingFault

/-- The wording. -/
def message : ScalingFault → String
  | .minExceedsMax least greatest =>
    "min " ++ Numeral.ofNat least ++ " exceeds max " ++ Numeral.ofNat greatest
  | .desiredOutside desired least greatest =>
    "default " ++ Numeral.ofNat desired ++ " outside [" ++ Numeral.ofNat least ++ ", "
      ++ Numeral.ofNat greatest ++ "]"
  | .noIncrement => "increment must be positive"
  | .noTargets => "no target components"
  | .targetNoCompute target => "target " ++ target ++ " is not a compute component"
  | .targetNotInGraph target => "target " ++ target ++ " not in graph"

end ScalingFault

namespace GraphFault

/-- The wording. -/
def message : GraphFault → String
  | .duplicate name => "duplicate resource name " ++ name
  | .unknownReference source target => source ++ " references unknown resource " ++ target
  | .unknownSource output source =>
    "output " ++ output ++ " sources unknown resource " ++ source
  | .cycle name => "reference cycle through " ++ name
  | .shared resource group referrer =>
    resource ++ " is owned by scaling group " ++ group ++ " but also referenced by " ++ referrer
  | .inFile file fault => file ++ ": " ++ fault.message

end GraphFault

namespace WorkflowFault

/-- The wording. -/
def message : WorkflowFault → String
  | .unknownSuccessor task successor =>
    "task " ++ task ++ " names unknown successor " ++ successor
  | .cycle task => "successor cycle through " ++ task
  | .noCount parameter value =>
    parameter ++ " must be a non-negative integer, got " ++ Json.compact value
  | .missing action parameter => action ++ " workflow requires parameter " ++ parameter
  | .noSteps => "steps must be a non-empty list"
  | .stepNoText position value =>
    "step " ++ Numeral.ofNat position ++ " must be an action string, got " ++ Json.compact value

end WorkflowFault

namespace Fault

/-- The wording. What cannot be read is named without saying where. -/
def message : Fault → String
  | .missingParameter name =>
    "Descriptor references inputs but no parameters were supplied (first: " ++ name ++ ")"
  | .unresolvedInput name => "Unresolved input reference: " ++ name
  | .malformedParameters found =>
    "Parameter input is not well formed: " ++ (match found with
      | some kind => "expected a mapping of input names to values, got " ++ kind
      | none => "unreadable text")
  | .addressesNoList component network =>
    "Static addresses for " ++ component ++ "/" ++ network ++ " must be a list"
  | .metadataNotMatched alarm metadata =>
    "Alarm " ++ alarm ++ " references metadata " ++ metadata
      ++ " not exposed by any compute component"
  | .invalidCapability component fault =>
    "Invalid capability on " ++ component ++ ": " ++ fault.message
  | .invalidScalingPolicy policy fault =>
    "Invalid scaling policy " ++ policy ++ ": " ++ fault.message
  | .invalidGraph fault => "Invalid resource graph: " ++ fault.message
  | .submissionRejected reason => "Stack submission rejected: " ++ reason
  | .createTimedOut stack last =>
    "Stack " ++ stack ++ " creation not completed within budget (last status: "
      ++ Quoted.option StackStatus.debug last ++ ")"
  | .createFailed stack reason => "Stack " ++ stack ++ " creation failed: " ++ reason
  | .scaleTimedOut stack last =>
    "Stack " ++ stack ++ " scaling not completed within budget (last event status: "
      ++ Quoted.option Quoted.text last ++ ")"
  | .scaleFailed stack reason => "Stack " ++ stack ++ " scaling failed: " ++ reason
  | .deleteTimedOut stack last =>
    "Stack " ++ stack ++ " deletion not completed within budget (last status: "
      ++ Quoted.option StackStatus.debug last ++ ")"
  | .deleteFailed stack reason => "Stack " ++ stack ++ " deletion failed: " ++ reason
  | .invalidWorkflow fault => "Invalid workflow: " ++ fault.message
  | .unknownScalingPolicy policy => "No scaling group bound to policy " ++ policy
  | .service error => "Service error: " ++ error.message
  | .unreadableJson => "JSON error"
  | .unreadableYaml => "YAML error"
  | .fileAccess => "IO error"
  | .settings reason => "Configuration error: " ++ reason

/-- Whether the input is at fault; no remote call will mend it. -/
def isCompilation : Fault → Bool
  | .missingParameter _ | .unresolvedInput _ | .malformedParameters _ | .addressesNoList ..
  | .metadataNotMatched .. | .invalidCapability .. | .invalidScalingPolicy .. | .invalidGraph _
  | .invalidWorkflow _ => true
  | _ => false

/-- Whether a budget ran out before the remote service settled. -/
def isTimeout : Fault → Bool
  | .createTimedOut .. | .scaleTimedOut .. | .deleteTimedOut .. => true
  | _ => false

/-- Whether the remote service itself reported failure. -/
def isTerminal : Fault → Bool
  | .createFailed .. | .scaleFailed .. | .deleteFailed .. => true
  | _ => false

end Fault

end Provision
