import Provision.Rehearsal

/-!
# Trials

A rehearsed service that is watched and disturbed: every call is put on record, calls can be made to
fail before the service is asked, reads of events can follow a script of their own, and pauses move
a clock and nothing else.
-/

namespace Provision

/-- A call of an orchestration service. -/
inductive Call where
  | submit (stackName : String)
  | stack (id : String)
  | resources (id : String) (depth : Nat)
  | resource (id name : String)
  | metadata (id name : String)
  | signal (id name : String)
  | events (id name : String) (limit : Nat)
  | delete (id : String)
  | schema (type : String)
  deriving DecidableEq

namespace Call

/-- The name of the call. -/
def method : Call → String
  | .submit _ => "submit"
  | .stack _ => "get_stack"
  | .resources .. => "list_resources"
  | .resource .. => "get_resource"
  | .metadata .. => "resource_metadata"
  | .signal .. => "signal_resource"
  | .events .. => "list_events"
  | .delete _ => "delete_stack"
  | .schema _ => "resource_type_schema"

/-- What is handed over. -/
def arguments : Call → List Value
  | .submit name => [.string name]
  | .stack id => [.string id]
  | .resources id depth => [.string id, .ofNat depth]
  | .resource id name => [.string id, .string name]
  | .metadata id name => [.string id, .string name]
  | .signal id name => [.string id, .string name]
  | .events id name limit => [.string id, .string name, .ofNat limit]
  | .delete id => [.string id]
  | .schema type => [.string type]

end Call

/-- So many calls of one name that are going to fail. -/
structure Disturbance where
  method : String
  times : Nat
  error : ServiceError

/-- A rehearsed service with everything that is done to it and known about it. -/
structure Trial where
  rehearsal : Rehearsal
  disturbances : List Disturbance
  /-- The scripts of reads of events, by resource. -/
  eventReads : Table (List (List StackEvent))
  /-- The calls on record, in order. -/
  calls : List Call
  pausedMs : Nat

namespace Trial

/-- Nothing has happened yet. -/
def blank : Trial := ⟨.blank, [], .empty, [], 0⟩

/-- The error that a call of that name is to fail with, and the disturbances left after it. -/
def disturb (method : String) : List Disturbance → Option ServiceError × List Disturbance
  | [] => (none, [])
  | d :: ds =>
    if d.method = method then
      match d.times with
      | 0 => disturb method ds
      | n + 1 => (some d.error, { d with times := n } :: ds)
    else
      let (e, ds) := disturb method ds
      (e, d :: ds)

/-- Puts a call on record and has it answered, unless it is to fail. -/
def watch (call : Call) (answer : ExceptT ServiceError (StateM Trial) α) :
    ExceptT ServiceError (StateM Trial) α := do
  let t ← get
  let (e, ds) := disturb call.method t.disturbances
  set { t with calls := t.calls ++ [call], disturbances := ds }
  match e with
  | some e => throw e
  | none => answer

/-- Has the rehearsed service answer. -/
def ask (x : ExceptT ServiceError (StateM Rehearsal) α) : ExceptT ServiceError (StateM Trial) α :=
  ExceptT.mk fun t =>
    let (a, r) := x.run t.rehearsal
    (a, { t with rehearsal := r })

/-- The next of scripted reads, and the script after it; the last one stays. -/
def nextRead : List (List StackEvent) → List StackEvent × List (List StackEvent)
  | [] => ([], [])
  | [es] => (es, [es])
  | es :: rest => (es, rest)

/-- Reads events from the script of a resource, or else from the rehearsed service. -/
def readEvents (id name : String) (limit : Nat) :
    ExceptT ServiceError (StateM Trial) (List StackEvent) := do
  let t ← get
  match t.eventReads.get? name with
  | some script =>
    let (es, script) := nextRead script
    set { t with eventReads := t.eventReads.put name script }
    return es.take limit
  | none => ask (Rehearsal.service.events id name limit)

/-- The service under trial. -/
def service : Orchestration (StateM Trial) :=
  let s := Rehearsal.service
  { submit := fun x => watch (.submit x.stackName) (ask (s.submit x))
    stack := fun id => watch (.stack id) (ask (s.stack id))
    resources := fun id depth => watch (.resources id depth) (ask (s.resources id depth))
    resource := fun id name => watch (.resource id name) (ask (s.resource id name))
    metadata := fun id name => watch (.metadata id name) (ask (s.metadata id name))
    signal := fun id name => watch (.signal id name) (ask (s.signal id name))
    events := fun id name limit => watch (.events id name limit) (readEvents id name limit)
    delete := fun id => watch (.delete id) (ask (s.delete id))
    schema := fun type => watch (.schema type) (ask (s.schema type)) }

/-- The lifecycles of stacks under trial; pauses move the clock. -/
def lifecycle (settings : LifecycleSettings) : Lifecycle (StateM Trial) where
  service := service
  pause ms := modify fun t => { t with pausedMs := t.pausedMs + ms }
  settings := settings

/-- Changes the script. -/
def script (f : Rehearsal → Rehearsal) (t : Trial) : Trial := { t with rehearsal := f t.rehearsal }

/-- Forgets the calls on record and turns the clock back. -/
def forget (t : Trial) : Trial := { t with calls := [], pausedMs := 0 }

end Trial

end Provision
