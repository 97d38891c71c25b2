import Provision.Plan
import Provision.Proofs.Watching

/-!
# The order of the policies

Compilation does not look at the policies (`compile_withPolicies`), scaling looks at the scaling
policies alone, and the alarms are taken up by their names, wherever they are declared. Retagging
for one alarm changes what the next one finds, so the alarms must not be taken up in the order of
their declaration; by name they are the same table in every order (`Reordered.alarmsByName_eq`).
-/

namespace Provision

namespace Compile

variable {d : Descriptor} {ps : List Policy} {s : Substitution}

theorem filePoints_withPolicies (points : List (String × ConnectionPoint))
    (filed : PointsByCompute) :
    filePoints { d with policies := ps } points filed = filePoints d points filed := by
  induction points generalizing filed with
  | nil => rfl
  | cons p points ih =>
    simp only [filePoints, ih]
    rfl

theorem addComputes_withPolicies {m : Type → Type} [Monad m] {settings : CompilerSettings}
    {catalog : Catalog m} {points : PointsByCompute} (cs : List (String × Compute))
    (done : Compiled) (memo : SupportMemo) :
    addComputes settings catalog { d with policies := ps } points s cs done memo
      = addComputes settings catalog d points s cs done memo := by
  induction cs generalizing done memo with
  | nil => rfl
  | cons e cs ih =>
    simp only [addComputes, ih]
    rfl

theorem addStorages_withPolicies (storages : List (String × Storage)) (g : ResourceGraph) :
    addStorages { d with policies := ps } s storages g = addStorages d s storages g := by
  induction storages generalizing g with
  | nil => rfl
  | cons e storages ih =>
    simp only [addStorages, ih]
    rfl

end Compile

namespace Descriptor

/-- What is compiled does not depend on the policies. -/
theorem compile_withPolicies {m : Type → Type} [Monad m] (d : Descriptor) (ps : List Policy)
    (settings : CompilerSettings) (parameters : Option Parameters) (catalog : Catalog m) :
    compile { d with policies := ps } settings parameters catalog
      = d.compile settings parameters catalog := by
  simp only [compile, Compile.pointsByCompute, Compile.filePoints_withPolicies,
    Compile.addComputes_withPolicies, Compile.addStorages_withPolicies]
  rfl

/-- The descriptors say the same but for the order of their policies. The scaling policies have kept
theirs, since the first of them is the one that counts; every alarm has a name of its own. -/
structure Reordered (d d' : Descriptor) : Prop where
  same : d' = { d with policies := d'.policies }
  scaling : d'.scalingPolicies = d.scalingPolicies
  alarms : d'.alarmPolicies.Perm d.alarmPolicies
  distinct : (d.alarmPolicies.map AlarmPolicy.name).Nodup

namespace Reordered

variable {d d' : Descriptor} (h : d.Reordered d')
include h

theorem alarmsByName_eq : d'.alarmsByName = d.alarmsByName := by
  have hnames : (Entries.names (d.alarmPolicies.map fun a => (a.name, a))).Nodup := by
    rw [Entries.names, List.map_map]
    exact h.distinct
  exact (Table.ofList_eq_of_perm hnames (h.alarms.map _).symm).symm

theorem tagSuffix_eq {workloadId workloadId' : String}
    (hid : d.scalingPolicies = [] → workloadId' = workloadId) :
    d'.tagSuffix workloadId' = d.tagSuffix workloadId := by
  unfold tagSuffix
  rw [h.scaling]
  rcases hp : d.scalingPolicies with _ | ⟨p, rest⟩
  · exact hid hp
  · rfl

theorem hasCompute_eq : d'.hasCompute = d.hasCompute := by
  rw [h.same]
  rfl

theorem scaling_eq : d'.scaling = d.scaling := by
  unfold Descriptor.scaling
  rw [h.scaling, h.hasCompute_eq]

theorem alarms_eq {base : ResourceGraph} {workloadId workloadId' : String}
    (hid : d.scalingPolicies = [] → workloadId' = workloadId) :
    d'.alarms base workloadId' = d.alarms base workloadId := by
  unfold Descriptor.alarms
  rw [h.alarmsByName_eq, h.scaling, h.tagSuffix_eq hid]

theorem compile_eq {m : Type → Type} [Monad m] {settings : CompilerSettings}
    {parameters : Option Parameters} {catalog : Catalog m} :
    d'.compile settings parameters catalog = d.compile settings parameters catalog := by
  rw [h.same]
  exact compile_withPolicies d d'.policies settings parameters catalog

theorem plan_eq {m : Type → Type} [Monad m] {settings : CompilerSettings}
    {parameters : Option Parameters} {catalog : Catalog m} {workloadId workloadId' : String}
    (hid : d.scalingPolicies = [] → workloadId' = workloadId) :
    d'.plan settings parameters catalog workloadId' = d.plan settings parameters catalog workloadId
    := by
  unfold plan
  simp only [h.compile_eq, h.scaling_eq, h.alarms_eq hid]

end Reordered

/-- Alarms in any order, and wherever they stand among the scaling policies, come to the same
graph, fragment and tags or to the same fault, and so does the whole plan. The identifier of the
workload has a say only if nothing scales. -/
theorem reordered_alike {d d' : Descriptor} (h : d.Reordered d') {workloadId workloadId' : String}
    (hid : d.scalingPolicies = [] → workloadId' = workloadId) :
    (∀ base, d'.alarms base workloadId' = d.alarms base workloadId)
      ∧ ∀ (m : Type → Type) [Monad m] (settings : CompilerSettings)
          (parameters : Option Parameters) (catalog : Catalog m),
        d'.plan settings parameters catalog workloadId'
          = d.plan settings parameters catalog workloadId :=
  ⟨fun _ => h.alarms_eq hid, fun _ _ _ _ _ => h.plan_eq hid⟩

/-- The two alarms the other way round, and before the scaling policy; the first of them by name
still is the one whose servers the second takes. -/
def chainedBackwards : Descriptor :=
  { chainedAlarms with policies := chainedAlarms.policies.reverse }

theorem chainedBackwards_alike : chainedAlarms.Reordered chainedBackwards
    ∧ chainedBackwards.alarms exposingServers "v" = chainedAlarms.alarms exposingServers "w" := by
  have h : chainedAlarms.Reordered chainedBackwards := ⟨rfl, rfl, .swap .., by decide⟩
  exact ⟨h, (reordered_alike h (by rintro ⟨⟩)).1 exposingServers⟩

end Descriptor

end Provision
