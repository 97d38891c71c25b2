import Provision.Text.Quoted

/-!
# Stack status

The status of a stack says which action was last taken on it and how far that action is. On the
wire it is one word: the action, an underscore and the state.
-/

namespace Provision

/-- What was last done to a stack. -/
inductive StackAction where
  | init
  | create
  | update
  | delete
  | rollback
  | suspend
  | resume
  | check
  /-- Any other action, under the name the service gives it. -/
  | other (word : String)
  deriving DecidableEq

/-- How far an action is. -/
inductive StackState where
  | inProgress
  | complete
  | failed
  deriving DecidableEq

/-- An action and how far it is. -/
structure StackStatus where
  action : StackAction
  state : StackState
  deriving DecidableEq

namespace StackAction

/-- The action that a word on the wire names. -/
def ofWord (word : String) : StackAction :=
  if word = "INIT" then .init
  else if word = "CREATE" then .create
  else if word = "UPDATE" then .update
  else if word = "DELETE" then .delete
  else if word = "ROLLBACK" then .rollback
  else if word = "SUSPEND" then .suspend
  else if word = "RESUME" then .resume
  else if word = "CHECK" then .check
  else .other word

/-- The word on the wire. -/
def word : StackAction → String
  | .init => "INIT"
  | .create => "CREATE"
  | .update => "UPDATE"
  | .delete => "DELETE"
  | .rollback => "ROLLBACK"
  | .suspend => "SUSPEND"
  | .resume => "RESUME"
  | .check => "CHECK"
  | .other word => word

/-- The name of the action in diagnostics. -/
def name : StackAction → String
  | .init => "Init"
  | .create => "Create"
  | .update => "Update"
  | .delete => "Delete"
  | .rollback => "Rollback"
  | .suspend => "Suspend"
  | .resume => "Resume"
  | .check => "Check"
  | .other word => "Other(" ++ Quoted.text word ++ ")"

end StackAction

namespace StackState

/-- The word on the wire. -/
def word : StackState → String
  | .inProgress => "IN_PROGRESS"
  | .complete => "COMPLETE"
  | .failed => "FAILED"

/-- The name of the state in diagnostics. -/
def name : StackState → String
  | .inProgress => "InProgress"
  | .complete => "Complete"
  | .failed => "Failed"

/-- Every state. -/
def all : List StackState := [.inProgress, .complete, .failed]

end StackState

namespace StackStatus

/-- What comes before `suffix` in a text that ends with it. -/
def dropSuffix? (suffix cs : List Char) : Option (List Char) :=
  if suffix.isSuffixOf cs then some (cs.take (cs.length - suffix.length)) else none

/-- The action in a text that ends with an underscore and the word of `state`. -/
def actionBefore? (state : StackState) (text : String) : Option String :=
  match dropSuffix? ('_' :: state.word.toList) text.toList with
  | none => none
  | some [] => none
  | some cs => some (String.ofList cs)

/-- The status that a text on the wire names. -/
def ofText? (text : String) : Option StackStatus :=
  StackState.all.findSome? fun state =>
    (actionBefore? state text).map fun word => ⟨StackAction.ofWord word, state⟩

/-- The text on the wire. -/
def text (s : StackStatus) : String := s.action.word ++ "_" ++ s.state.word

/-- What is said of a text that names no status. -/
def unrecognised (text : String) : String := "Unrecognised stack status: " ++ text

/-- Whether the action is still going on. -/
def isInProgress (s : StackStatus) : Bool := s.state = .inProgress

/-- Whether `action` is complete. -/
def isComplete (s : StackStatus) (action : StackAction) : Bool :=
  s.action = action && s.state = .complete

/-- The status in diagnostics. -/
def debug (s : StackStatus) : String :=
  "StackStatus \x7b action: " ++ s.action.name ++ ", state: " ++ s.state.name ++ " \x7d"

end StackStatus

end Provision
