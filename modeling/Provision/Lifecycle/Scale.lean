import Provision.Lifecycle

/-!
# Scaling a stack

A scaling policy is signalled, and the newest event of the policy before the signal is remembered,
so that whoever waits can tell new events from old ones. A service may merge a signal into one that
came shortly before it; then no event follows, and the signal counts as acted on once the policy no
longer says that it is at work.
-/

namespace Provision

/-- What is asked of a scaling policy. -/
structure ScaleRequest where
  policy : String
  direction : ScaleDirection
  deriving DecidableEq

namespace ScaleRequest

/-- The resource to signal. -/
def resource (r : ScaleRequest) : String := signalName r.policy r.direction

/-- The group that the policy is bound to. -/
def group (r : ScaleRequest) (bindings : Bindings) : Except Fault String :=
  match bindings.get? r.policy with
  | some group => .ok group
  | none => .error (.unknownScalingPolicy r.policy)

end ScaleRequest

/-- How a wait for a signal ended. -/
inductive SignalWait where
  | complete
  | failed (event : StackEvent)
  /-- The budget ran out; `last` is the last status of a new event. -/
  | exhausted (last : Option String)

namespace StackEvent

/-- The newest of the events, unless it is the one that was the newest before. -/
def newest? (before : Option String) (events : List StackEvent) : Option StackEvent :=
  match events with
  | [] => none
  | e :: _ => if some e.id = before then none else some e

/-- What the service says about an event. -/
def reason (e : StackEvent) : String := e.statusReason.getD e.status

end StackEvent

namespace Lifecycle

variable {m : Type → Type} [Monad m] (l : Lifecycle m)

/-- Signals a scaling policy and tells the newest event before the signal. -/
def scale (id : String) (bindings : Bindings) (request : ScaleRequest) :
    ExceptT Fault m (Option String) := do
  let _ ← ExceptT.mk (pure (request.group bindings))
  let events ← (l.service.events id request.resource 1).adapt Fault.service
  (l.service.signal id request.resource).adapt Fault.service
  return events.head?.map StackEvent.id

/-- Reads the newest event of a resource until it is new and says what became of the signal, at
most so many times. `last` is the last status of a new event so far. -/
def awaitSignal (id resource : String) (before : Option String) (intervalMs : Nat) :
    Nat → Option String → m SignalWait
  | 0, last => pure (.exhausted last)
  | n + 1, last => do
    match StackEvent.newest? before <$> (← (l.service.events id resource 1).run) with
    | .ok (some e) =>
      if e.status = StackEvent.signalComplete then return .complete
      if e.status = StackEvent.signalFailed then return .failed e
      l.pauseBefore intervalMs n
      awaitSignal id resource before intervalMs n (some e.status)
    | _ =>
      l.pauseBefore intervalMs n
      awaitSignal id resource before intervalMs n last

/-- The name of the metadata of a scaling policy that says whether it is at work. -/
def atWorkKey : String := "scaling_in_progress"

/-- Whether metadata leave open that a scaling policy is at work. -/
def maybeAtWork : Except ServiceError (Table Value) → Bool
  | .error _ => true
  | .ok metadata => ((metadata.get? atWorkKey).bind Value.asBool?).getD true

/-- Waits until a signal has been acted on and tells the addresses in every member of the group. -/
def awaitScaled (id : String) (bindings : Bindings) (request : ScaleRequest)
    (before : Option String) (budget : Budget) : ExceptT Fault m Endpoints := do
  let group ← ExceptT.mk (pure (request.group bindings))
  match ← l.awaitSignal id request.resource before budget.intervalMs budget.retries none with
  | .complete => pure ()
  | .failed e => throw (.scaleFailed id e.reason)
  | .exhausted last =>
    if maybeAtWork (← (l.service.metadata id request.resource).run) then
      throw (.scaleTimedOut id last)
  (l.addGroups id [group] .empty).adapt Fault.service

end Lifecycle

end Provision
