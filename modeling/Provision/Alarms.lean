import Provision.Scaling

/-!
# Alarms

Every alarm policy becomes an alarm on the servers that expose its metadata value. Alarm and servers
find each other by a tag that takes the place of the value: the value and the name of the scaling
group, or of the workload if nothing scales.
-/

namespace Provision

/-- The type of alarms. -/
def alarmType : String := "OS::Aodh::Alarm"

/-- What an alarm matches the metadata of servers by. -/
def serverGroupKey : String := "metadata.user_metadata.server_group"

/-- The alarms of a descriptor, and the graph with them. -/
structure AlarmSynthesis where
  present : Bool
  /-- The alarms alone. -/
  fragment : ResourceGraph
  merged : ResourceGraph
  /-- The tag of every alarm. -/
  tags : Table String

/-- The exposed value that an alarm looks for, and the tag that takes its place. -/
structure Retag where
  metadata : String
  tag : String

namespace Retag

/-- Whether a metadata value is the one looked for, or has been retagged already. -/
def applies (t : Retag) (p : Property) : Bool :=
  match p.asString? with
  | some s => s == t.metadata || s == t.tag
  | none => false

/-- The metadata of a server; empty for another resource. -/
def metadataOf (r : Resource) : List (String × Property) :=
  if r.type = serverType then
    match r.properties.get? "metadata" with
    | some (.map es) => es
    | _ => []
  else []

/-- The number of metadata values of a resource that the retagging applies to. -/
def matchesIn (t : Retag) (r : Resource) : Nat :=
  (metadataOf r).countP fun e => t.applies e.2

/-- The resource with its metadata retagged. -/
def resource (t : Retag) (r : Resource) : Resource :=
  if t.matchesIn r = 0 then r
  else r.set "metadata"
    (.map ((metadataOf r).map fun e => (e.1, if t.applies e.2 then .string t.tag else e.2)))

mutual

/-- The number of metadata values in a graph, nested graphs included, that the retagging applies
to. -/
def count (t : Retag) (g : ResourceGraph) : Nat :=
  match g with
  | ⟨_, resources, _, files⟩ =>
    (resources.values.flatMap metadataOf).countP (fun e => t.applies e.2) + countFiles t files

/-- The number of metadata values in nested graphs that the retagging applies to. -/
def countFiles (t : Retag) : List (String × ResourceGraph) → Nat
  | [] => 0
  | (_, g) :: fs => count t g + countFiles t fs

end

mutual

/-- The graph with the metadata of its servers retagged, in nested graphs too. -/
def graph (t : Retag) (g : ResourceGraph) : ResourceGraph :=
  match g with
  | ⟨description, resources, outputs, files⟩ =>
    ⟨description, resources.map fun _ r => t.resource r, outputs, graphFiles t files⟩

/-- Nested graphs with the metadata of their servers retagged. -/
def graphFiles (t : Retag) : List (String × ResourceGraph) → List (String × ResourceGraph)
  | [] => []
  | (name, g) :: fs => (name, graph t g) :: graphFiles t fs

end

end Retag

namespace AlarmPolicy

/-- Whether an action is an address to notify. -/
def isAddress (action : String) : Bool :=
  "http://".toList.isPrefixOf action.toList || "https://".toList.isPrefixOf action.toList

/-- What an action comes to: the signal of the scaling policy it names, an address as it is, or
nothing. -/
def action? (a : AlarmPolicy) (scaling : Option ScalingPolicy) (action : String) :
    Option Property :=
  if scaling.any fun p => p.name == action then
    some (.attribute (signalName action (.ofComparison a.comparison)) [.key "alarm_url"])
  else if isAddress action then some (.string action)
  else none

/-- The alarm of the policy. -/
def alarm (a : AlarmPolicy) (scaling : Option ScalingPolicy) (tag : String) : Resource :=
  (Resource.new alarmType).set "meter_name" (.string a.meterName)
    |>.set "comparison_operator" (.string a.comparison)
    |>.set "period" (.ofInt a.period)
    |>.set "evaluation_periods" (.int a.evaluationPeriods)
    |>.set "statistic" (.string a.statistic)
    |>.set "threshold" (.float a.threshold)
    |>.set "matching_metadata" (.single serverGroupKey (.string tag))
    |>.set "alarm_actions" (.list (a.actions.filterMap (a.action? scaling)))

end AlarmPolicy

namespace Descriptor

/-- The alarm policies by name; the last of each name stays. -/
def alarmsByName (d : Descriptor) : Table AlarmPolicy :=
  .ofList (d.alarmPolicies.map fun a => (a.name, a))

/-- What the tags of alarms end with. -/
def tagSuffix (d : Descriptor) (workloadId : String) : String :=
  match d.scalingPolicies.head? with
  | some p => groupName p.name
  | none => workloadId

/-- The tag of an alarm. -/
def alarmTag (a : AlarmPolicy) (suffix : String) : String := a.metadata ++ "-" ++ suffix

/-- Retags the servers of the alarms in turn, and adds the alarms. -/
def addAlarms (scaling : Option ScalingPolicy) (suffix : String) :
    List (String × AlarmPolicy) → AlarmSynthesis → Except Fault AlarmSynthesis
  | [], done => .ok done
  | (name, a) :: rest, done =>
    let retag : Retag := ⟨a.metadata, alarmTag a suffix⟩
    if retag.count done.merged = 0 then .error (.metadataNotMatched name a.metadata)
    else addAlarms scaling suffix rest
      { done with
        merged := retag.graph done.merged
        fragment := { done.fragment with
          resources := done.fragment.resources.put name (a.alarm scaling retag.tag) }
        tags := done.tags.put name retag.tag }

/-- The alarms of a descriptor, and the graph with them. -/
def alarms (d : Descriptor) (base : ResourceGraph) (workloadId : String) :
    Except Fault AlarmSynthesis := do
  let named := d.alarmsByName
  if named.isEmpty then return ⟨false, .empty, base, .empty⟩
  else
    let done ← addAlarms d.scalingPolicies.head? (d.tagSuffix workloadId) named.entries
      ⟨true, .empty, base, .empty⟩
    let merged ← (done.merged.merged done.fragment).mapError Fault.invalidGraph
    merged.validate.mapError Fault.invalidGraph
    return { done with merged := merged }

end Descriptor

end Provision
