import Provision.Lifecycle.Scale
import Provision.Proofs.Rereading
import Provision.Proofs.Signalling
import Provision.Proofs.Templates

/-!
# Requests to scale meet what was planned

Planning names a group and its two signals, and a request to scale works the names out again from
the policy alone. Both come to the same: a request is taken up exactly for the policy that the plan
has put in, and what it signals stands in the submitted template, bound to the group whose members
hold the targets (`plan_steerable`). A record of the deployment loses none of this.
-/

namespace Provision

open MonadAttach LawfulMonadAttach

/-! ## Templates -/

namespace Value

/-- What stands at a path of member names. -/
def path? (path : List String) (v : Value) : Option Value :=
  path.foldlM (fun v name => v.member? name) v

theorem path?_cons (name : String) (path : List String) (v : Value) :
    v.path? (name :: path) = (v.member? name).bind (Value.path? path) := rfl

/-- The template has a resource of that type with at least those properties. -/
structure Declares (template : Value) (name type : String) (properties : List (String × Value)) :
    Prop where
  type : template.path? ["resources", name, "type"] = some (.string type)
  properties : ∀ e ∈ properties,
    template.path? ["resources", name, "properties", e.1] = some e.2

end Value

namespace Resource

variable {r : Resource}

theorem toTemplate_type : r.toTemplate.member? "type" = some (.string r.type) := by
  unfold toTemplate
  split
  · rfl
  · rfl

theorem toTemplate_property {key : String} {p : Property} (h : r.properties.get? key = some p) :
    r.toTemplate.path? ["properties", key] = some p.toValue := by
  have hne : r.properties.isEmpty = false := by
    unfold Table.isEmpty
    rw [List.isEmpty_eq_false_iff]
    exact List.ne_nil_of_mem (Table.mem_entries.2 h)
  have hmap : (r.properties.map fun _ p => p.toValue).get? key = some p.toValue := by
    rw [Table.get?_map, h, Option.map_some]
  unfold toTemplate
  rw [hne]
  simp only [Bool.false_eq_true, if_false, Value.path?_cons]
  exact congrArg (Option.bind · some) hmap

end Resource

namespace ResourceGraph

variable {g : ResourceGraph}

theorem toTemplate_resources : g.toTemplate.member? "resources"
    = some (.ofTable (g.resources.map fun _ r => r.toTemplate)) := by
  change Entries.get? "resources" (Entries.ofList _) = _
  rw [Entries.get?_ofList]
  split <;> split <;> rfl

theorem toTemplate_path? {n : String} {r : Resource} (h : g.resource? n = some r)
    (path : List String) :
    g.toTemplate.path? ("resources" :: n :: path) = r.toTemplate.path? path := by
  have hmap : (g.resources.map fun _ r => r.toTemplate).get? n = some r.toTemplate := by
    rw [Table.get?_map]
    exact congrArg _ h
  rw [Value.path?_cons, toTemplate_resources, Option.bind_some, Value.path?_cons]
  exact congrArg (Option.bind · _) hmap

theorem declares_of_resource? {n : String} {r : Resource} {properties : List (String × Value)}
    (h : g.resource? n = some r) (hp : ∀ e ∈ properties,
      ∃ p, r.properties.get? e.1 = some p ∧ p.toValue = e.2) :
    g.toTemplate.Declares n r.type properties where
  type := (toTemplate_path? h _).trans (congrArg (Option.bind · some) Resource.toTemplate_type)
  properties e he := by
    obtain ⟨p, hp, hv⟩ := hp e he
    rw [toTemplate_path? h, Resource.toTemplate_property hp, hv]

theorem fileTexts_of_single {file : String} {nested : ResourceGraph}
    (h : g.files = [(file, nested)]) :
    g.fileTexts.get? file = some (Json.pretty nested.toTemplate) := by
  rw [fileTexts, h]
  change (Table.empty.put file (Json.pretty nested.toTemplate)).get? file = _
  rw [Table.get?_put, if_pos rfl]

end ResourceGraph

/-! ## What is bound -/

namespace ScalingPolicy

variable (p : ScalingPolicy)

theorem ordered_of_flaw? (h : p.flaw? = none) :
    p.least ≤ p.desired ∧ p.desired ≤ p.greatest := by
  unfold flaw? at h
  split_ifs at h with hbounds hdesired
  all_goals omega

theorem fragment_signal (direction : ScaleDirection) :
    p.fragment.resource? (signalName p.name direction) = some (p.signal direction) := by
  have hd := p.resourceNames_nodup
  simp only [resourceNames, List.nodup_cons, List.mem_singleton] at hd
  rw [fragment_resource?]
  rcases direction with _ | _
  · rw [if_neg hd.2.1, if_pos rfl]
  · rw [if_pos rfl]

theorem fragment_group : p.fragment.resource? (groupName p.name) = some p.group := by
  have hd := p.resourceNames_nodup
  simp only [resourceNames, List.nodup_cons, List.mem_cons, List.not_mem_nil, or_false,
    not_or] at hd
  rw [fragment_resource?, if_neg hd.1.2, if_neg hd.1.1, if_pos rfl]

theorem signal_properties (direction : ScaleDirection) : ∀ e ∈
    [("scaling_adjustment", Value.int (direction.sign * p.increment)),
     ("auto_scaling_group_id", .single "get_resource" (.string (groupName p.name)))],
    ∃ v, (p.signal direction).properties.get? e.1 = some v ∧ v.toValue = e.2 := by
  simp [signal, Resource.set, Table.get?_put, Property.toValue]

theorem group_properties : ∀ e ∈
    [("min_size", Value.ofNat p.least), ("desired_capacity", .ofNat p.desired),
     ("max_size", .ofNat p.greatest), ("resource", .single "type" (.string (memberFile p.name)))],
    ∃ v, p.group.properties.get? e.1 = some v ∧ v.toValue = e.2 := by
  simp [group, Resource.set, Table.get?_put, Property.toValue, Property.toMembers,
    Property.single, Value.single, Value.ofNat]

end ScalingPolicy

/-- What a descriptor says about scaling is what its first policy says, which is sound. -/
structure ScalingPolicy.Counts (p : ScalingPolicy) (d : Descriptor) (s : ScalingSynthesis) :
    Prop where
  policy : s.policy = some p
  bindings : s.bindings = Table.empty.put p.name (groupName p.name)
  ordered : p.least ≤ p.desired ∧ p.desired ≤ p.greatest
  targets : ∀ t ∈ p.targets, ∃ c, d.components.get? t = some (.compute c)

theorem Descriptor.of_scaling {d : Descriptor} {s : ScalingSynthesis} (h : d.scaling = .ok s) :
    (d.scalingPolicies = [] ∧ s.bindings = .empty)
      ∨ ∃ p, d.scalingPolicies.head? = some p ∧ p.Counts d s := by
  unfold scaling at h
  split at h
  · rename_i hnone
    cases h
    exact .inl ⟨hnone, rfl⟩
  · rename_i p ps hsome
    split at h
    · cases h
    · rename_i hflaw
      split at h
      · cases h
      · rename_i htargets
        cases h
        refine .inr ⟨p, by rw [hsome, List.head?_cons], rfl, rfl,
          p.ordered_of_flaw? hflaw, fun t ht => ?_⟩
        exact hasCompute_iff.1 (by simpa using List.find?_eq_none.1 htargets t ht)

/-! ## Requests -/

namespace Lifecycle

variable {m : Type → Type} [Monad m] (l : Lifecycle m)

/-- What `create` submits. -/
def submission (stackName : String) (g : ResourceGraph) : Submission :=
  { g.toSubmission stackName with
    timeoutMins := l.settings.timeoutMins
    disableRollback := l.settings.disableRollback }

/-- Tells the newest event of a resource and signals it. -/
def signalling (id resource : String) : ExceptT Fault m (Option String) := do
  let events ← (l.service.events id resource 1).adapt Fault.service
  (l.service.signal id resource).adapt Fault.service
  return events.head?.map StackEvent.id

/-- Waits until a signal to a resource has been acted on and tells the addresses in every member of
a group. -/
def awaiting (id resource group : String) (before : Option String) (budget : Budget) :
    ExceptT Fault m Endpoints := do
  match ← l.awaitSignal id resource before budget.intervalMs budget.retries none with
  | .complete => pure ()
  | .failed e => throw (.scaleFailed id e.reason)
  | .exhausted last =>
    if maybeAtWork (← (l.service.metadata id resource).run) then
      throw (.scaleTimedOut id last)
  (l.addGroups id [group] .empty).adapt Fault.service

section Runs

variable {id : String} {bindings : Bindings} {request : ScaleRequest} {group : String}

theorem group_of_bound (h : bindings.get? request.policy = some group) :
    (ExceptT.mk (pure (request.group bindings)) : ExceptT Fault m _) = pure group := by
  rw [ScaleRequest.group, h]
  rfl

variable [LawfulMonad m]

theorem scale_of_bound (h : bindings.get? request.policy = some group) :
    l.scale id bindings request = l.signalling id request.resource := by
  rw [scale, group_of_bound h, pure_bind]
  rfl

theorem awaitScaled_of_bound (h : bindings.get? request.policy = some group)
    {before : Option String} {budget : Budget} :
    l.awaitScaled id bindings request before budget
      = l.awaiting id request.resource group before budget := by
  rw [awaitScaled, group_of_bound h, pure_bind]
  rfl

variable [MonadAttach m] [LawfulMonadAttach m] {policy resource : String}

theorem throwsOnly_signalling :
    ThrowsOnly (· ≠ .unknownScalingPolicy policy) (l.signalling id resource) :=
  (throwsOnly_adapt fun _ => nofun).bind fun _ _ =>
    (throwsOnly_adapt fun _ => nofun).bind fun _ _ => throwsOnly_pure

theorem throwsOnly_awaiting {before : Option String} {budget : Budget} :
    ThrowsOnly (· ≠ .unknownScalingPolicy policy)
      (l.awaiting id resource group before budget) := by
  have hmembers : ThrowsOnly (· ≠ .unknownScalingPolicy policy)
      ((l.addGroups id [group] .empty).adapt Fault.service) := throwsOnly_adapt fun _ => nofun
  refine throwsOnly_lift.bind fun wait _ => ?_
  rcases wait with _ | e | last
  · exact hmembers
  · exact (throwsOnly_throw nofun).bind fun _ _ => hmembers
  · refine throwsOnly_lift.bind fun metadata _ => ?_
    split
    · exact (throwsOnly_throw nofun).bind fun _ _ => hmembers
    · exact hmembers

end Runs

/-- A request that is taken up: what it names is signalled and waited for, and the members of the
group are read. -/
structure TakesUp [MonadAttach m] (bindings : Bindings) (request : ScaleRequest)
    (group : String) : Prop where
  signals : ∀ id, l.scale id bindings request
    = l.signalling id (signalName request.policy request.direction)
  awaits : ∀ id before budget, l.awaitScaled id bindings request before budget
    = l.awaiting id (signalName request.policy request.direction) group before budget
  signalsKnown : ∀ id,
    ThrowsOnly (· ≠ .unknownScalingPolicy request.policy) (l.scale id bindings request)
  awaitsKnown : ∀ id before budget, ThrowsOnly (· ≠ .unknownScalingPolicy request.policy)
    (l.awaitScaled id bindings request before budget)

/-- A request that is turned down before the service is asked for anything. -/
structure TurnsDown (bindings : Bindings) (request : ScaleRequest) : Prop where
  scale : ∀ id, (l.scale id bindings request).run
    = pure (.error (.unknownScalingPolicy request.policy))
  awaitScaled : ∀ id before budget, (l.awaitScaled id bindings request before budget).run
    = pure (.error (.unknownScalingPolicy request.policy))

variable [LawfulMonad m] {bindings : Bindings} {request : ScaleRequest}

theorem takesUp_of_bound [MonadAttach m] [LawfulMonadAttach m] {group : String}
    (h : bindings.get? request.policy = some group) : l.TakesUp bindings request group where
  signals _ := l.scale_of_bound h
  awaits _ _ _ := l.awaitScaled_of_bound h
  signalsKnown _ := l.scale_of_bound h ▸ l.throwsOnly_signalling
  awaitsKnown _ _ _ := l.awaitScaled_of_bound h ▸ l.throwsOnly_awaiting

theorem turnsDown_of_unbound (h : bindings.get? request.policy = none) :
    l.TurnsDown bindings request where
  scale _ := Rehearsal.scale_of_unbound l h
  awaitScaled _ _ _ := Rehearsal.awaitScaled_of_unbound l h

end Lifecycle

/-! ## Names that meet -/

/-- A submission that has what a policy is steered by: both signals, bound to the group, and the
group, whose members' template has every target. -/
structure Submission.Steers (s : Submission) (p : ScalingPolicy) (group : String) : Prop where
  signals : ∀ direction : ScaleDirection,
    s.template.Declares (signalName p.name direction) signalPolicyType
      [("scaling_adjustment", .int (direction.sign * p.increment)),
       ("auto_scaling_group_id", .single "get_resource" (.string group))]
  ordered : p.least ≤ p.desired ∧ p.desired ≤ p.greatest
  group : ∃ file members,
    s.template.Declares group groupType
      [("min_size", .ofNat p.least),
       ("desired_capacity", .ofNat p.desired),
       ("max_size", .ofNat p.greatest),
       ("resource", .single "type" (.string file))]
    ∧ s.files.get? file = some (Json.pretty members)
    ∧ ∀ t ∈ p.targets, members.Declares t serverType []

namespace Descriptor

/-- How a stack of a graph is steered with bindings: a request for the first policy of the
descriptor is taken up and meets what was submitted, and any other is turned down. -/
structure Steerable (d : Descriptor) (planned : ResourceGraph) (bindings : Bindings) : Prop where
  first : ∀ p, d.scalingPolicies.head? = some p → ∃ group, bindings.get? p.name = some group
    ∧ ∀ {n : Type → Type} [Monad n] [LawfulMonad n] [MonadAttach n] [LawfulMonadAttach n]
      (l : Lifecycle n),
      (∀ direction, l.TakesUp bindings ⟨p.name, direction⟩ group)
      ∧ ∀ stackName, (l.submission stackName planned).Steers p group
        ∧ l.create stackName planned
          = (l.service.submit (l.submission stackName planned)).adapt
            fun e => .submissionRejected e.message
  others : ∀ policy, (∀ p, d.scalingPolicies.head? = some p → p.name ≠ policy) →
    ∀ {n : Type → Type} [Monad n] [LawfulMonad n] (l : Lifecycle n) direction,
      l.TurnsDown bindings ⟨policy, direction⟩

section Planned

variable {d : Descriptor} {s : ScalingSynthesis} {p : ScalingPolicy}
variable {g base planned : ResourceGraph} {ts : List Retag}

theorem declares_of_fragment (ha : ResourceGraph.Alarmed ts (g.regrouped p) planned) {n : String}
    {r : Resource} (h : p.fragment.resource? n = some r) {properties : List (String × Value)}
    (hp : ∀ e ∈ properties, ∃ v, r.properties.get? e.1 = some v ∧ v.toValue = e.2) :
    planned.toTemplate.Declares n r.type properties := by
  have hsame : Retag.each ts r = r := Retag.each_of_ne (ResourceGraph.fragment_type_ne h)
  have hbase : (g.regrouped p).resource? n = some r := by
    rw [ResourceGraph.regrouped_resource?, h, Option.some_or]
  exact ResourceGraph.declares_of_resource? (hsame ▸ ha.kept n r hbase) hp

theorem steers_of_counts (hg : d.CompilesTo g) (hp : p.Counts d s)
    (ht : ∀ t ∈ p.targets, g.contains t)
    (ha : ResourceGraph.Alarmed ts (g.regrouped p) planned) {submission : Submission}
    (htemplate : submission.template = planned.toTemplate)
    (hfiles : submission.files = planned.fileTexts) :
    submission.Steers p (groupName p.name) := by
  set members := g.members (g.owned p.targets)
  have hplanned : planned.files = [(memberFile p.name, Retag.all ts members)] := by
    rw [ha.files, Retag.all_files, ResourceGraph.regrouped_files hg.files, List.map_singleton]
  refine ⟨fun direction => ?_, hp.ordered, memberFile p.name, (Retag.all ts members).toTemplate,
    ?_, ?_, fun t htt => ?_⟩
  · rw [htemplate]
    exact declares_of_fragment ha (p.fragment_signal direction) (p.signal_properties direction)
  · rw [htemplate]
    exact declares_of_fragment ha p.fragment_group p.group_properties
  · rw [hfiles, ResourceGraph.fileTexts_of_single hplanned]
  · obtain ⟨c, hc⟩ := hp.targets t htt
    obtain ⟨server, hserver, htype, -⟩ := hg.servers t c hc
    have howned : t ∈ g.owned p.targets :=
      (ResourceGraph.mem_owned_iff ht).2 (ResourceGraph.owns_target htt)
    have hmember : members.resource? t = some server :=
      ResourceGraph.members_resource?.2 ⟨hserver, howned⟩
    have htag : (Retag.each ts server).type = serverType := Retag.each_type.trans htype
    rw [← htag]
    refine ResourceGraph.declares_of_resource? ?_ fun _ h => absurd h List.not_mem_nil
    rw [Retag.all_resource?, hmember, Option.map_some]

end Planned

section Monad

variable {m : Type → Type} [Monad m] [LawfulMonad m] [MonadAttach m] [LawfulMonadAttach m]
variable {d : Descriptor} {settings : CompilerSettings} {parameters : Option Parameters}
variable {catalog : Catalog m} {workloadId : String} {plan : Plan}

theorem steerable_of_plan (h : CanReturn (d.plan settings parameters catalog workloadId) plan) :
    d.Steerable plan.graph plan.bindings := by
  obtain ⟨g, s, base, ts, hg, hs, hbase, ha, hbindings⟩ := of_plan h
  rcases of_scaling hs with ⟨hnone, hempty⟩ | ⟨p, hfirst, hp⟩
  · rw [hbindings, hempty]
    refine ⟨fun p hp => ?_, fun policy _ _ _ _ l direction => l.turnsDown_of_unbound rfl⟩
    rw [hnone] at hp
    cases hp
  · obtain ⟨ht, -, -, rfl, -⟩ := ResourceGraph.of_withScaling_eq_ok hp.policy
      (ResourceGraph.fragment_of_scaling hs hp.policy) hbase
    have hget (policy : String) : plan.bindings.get? policy
        = if policy = p.name then some (groupName p.name) else none := by
      rw [hbindings, hp.bindings]
      exact Table.get?_put
    refine ⟨fun p' hp' => ?_, fun policy hne _ _ _ l direction => ?_⟩
    · cases hfirst.symm.trans hp'
      have hbound := (hget p.name).trans (if_pos rfl)
      refine ⟨groupName p.name, hbound, fun l => ⟨fun _ => l.takesUp_of_bound hbound, ?_⟩⟩
      exact fun stackName => ⟨steers_of_counts hg hp ht ha rfl rfl, rfl⟩
    · exact l.turnsDown_of_unbound ((hget policy).trans (if_neg (hne p hfirst).symm))

end Monad

/-- Every plan can be steered with its bindings, and with those of a deployment record that has
been written and read again. -/
theorem plan_steerable {m : Type → Type} [Monad m] [LawfulMonad m] [MonadAttach m]
    [LawfulMonadAttach m] {d : Descriptor} {settings : CompilerSettings}
    {parameters : Option Parameters} {catalog : Catalog m} {workloadId : String} {plan : Plan}
    (h : CanReturn (d.plan settings parameters catalog workloadId) plan) :
    d.Steerable plan.graph plan.bindings
      ∧ ∀ r : DeploymentRecord, r.bindings = plan.bindings →
        ∃ r', DeploymentRecord.ofText? r.text = some r' ∧ d.Steerable plan.graph r'.bindings := by
  have hsteerable := steerable_of_plan h
  exact ⟨hsteerable, fun r hr => ⟨r, r.ofText?_text, hr ▸ hsteerable⟩⟩

theorem scaledStore_steerable :
    ∃ plan, CanReturn (scaledStore.plan .default none oldCatalog "w") plan
      ∧ scaledStore.Steerable plan.graph plan.bindings
      ∧ ∀ r : DeploymentRecord, r.bindings = plan.bindings →
        ∃ r', DeploymentRecord.ofText? r.text = some r'
          ∧ scaledStore.Steerable plan.graph r'.bindings := by
  obtain ⟨plan, hplan⟩ := scaledStore_plan
  exact ⟨plan, hplan, plan_steerable hplan⟩

end Descriptor

end Provision
