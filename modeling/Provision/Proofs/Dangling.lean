import Provision.Proofs.Legible
import Provision.Proofs.Steering

/-!
# References that lead nowhere

Every graph of a plan has passed validation, so whatever validation reads as a reference leads to a
resource of the same template. The orchestration service reads two kinds of references more
(`Overlooked`): those by a path that is none, and the metadata of a server or the extra specs of a
flavor, if they look like a reference as a whole. These are the only ones that can lead nowhere
(`plan_resolves`), and they can (`misnamed_dangles`), for what scaling and alarms put into the
templates is as legible as what compilation does (`legible_of_plan`).
-/

namespace Provision

open MonadAttach LawfulMonadAttach

/-! ## Scaling -/

namespace ScalingPolicy

variable {p : ScalingPolicy}

theorem legible_group : p.group.Legible := by
  have hsizes : (((((Resource.new groupType).set "min_size" (.int p.least)).set "max_size"
      (.int p.greatest)).set "desired_capacity" (.int p.desired)).set "cooldown"
      (.int p.cooldown)).Legible :=
    ((((Resource.legible_new groupType).setPlain (by decide) Property.not_masked_int).setPlain
      (by decide) Property.not_masked_int).setPlain (by decide) Property.not_masked_int).setPlain
      (by decide) Property.not_masked_int
  exact hsizes.setPlain (by decide)
    (Property.not_masked_single (by decide) Property.not_masked_string)

theorem legible_signal {direction : ScaleDirection} : (p.signal direction).Legible :=
  ((((Resource.legible_new signalPolicyType).setPlain (by decide)
    Property.not_masked_string).setPlain (by decide) Property.not_masked_int).setPlain (by decide)
    Property.not_masked_resource).setPlain (by decide) Property.not_masked_int

theorem legible_fragment : p.fragment.Legible := by
  intro n r hr
  rw [fragment_resource?] at hr
  split_ifs at hr
  · cases hr
    exact legible_signal
  · cases hr
    exact legible_signal
  · cases hr
    exact legible_group

end ScalingPolicy

/-! ## Alarms -/

theorem AlarmPolicy.legible_alarm {a : AlarmPolicy} {scaling : Option ScalingPolicy}
    {tag : String} : (a.alarm scaling tag).Legible := by
  have hactions : ∀ p ∈ a.actions.filterMap (a.action? scaling), ¬p.Masked := by
    intro p hp
    obtain ⟨action, -, haction⟩ := List.mem_filterMap.1 hp
    unfold AlarmPolicy.action? at haction
    split_ifs at haction
    · cases haction
      exact Property.not_masked_attribute
    · cases haction
      exact Property.not_masked_string
  have hmatching : ¬(Property.single serverGroupKey (.string tag)).Masked :=
    Property.not_masked_single (by decide) Property.not_masked_string
  have hmeter : ((((Resource.new alarmType).set "meter_name" (.string a.meterName)).set
      "comparison_operator" (.string a.comparison)).set "period" (.ofInt a.period)).Legible :=
    (((Resource.legible_new alarmType).setPlain (by decide) Property.not_masked_string).setPlain
      (by decide) Property.not_masked_string).setPlain (by decide)
      (Property.not_masked_ofValue (.int a.period))
  exact ((((hmeter.setPlain (by decide) Property.not_masked_int).setPlain (by decide)
    Property.not_masked_string).setPlain (by decide) Property.not_masked_float).setPlain (by decide)
    hmatching).setPlain (by decide) (Property.not_masked_list hactions)

namespace Retag

variable {t : Retag} {ts : List Retag} {r : Resource} {g : ResourceGraph}

theorem legible_resource (h : r.Legible) : (t.resource r).Legible := by
  unfold Retag.resource
  split_ifs with hnone
  · exact h
  · have hserver : r.type = serverType := by
      by_contra htype
      exact hnone (by simp [matchesIn, metadataOf, htype])
    have hentries : ∀ e ∈ metadataOf r, ¬e.2.Masked := by
      unfold metadataOf
      rw [if_pos hserver]
      split
      · rename_i es hes
        exact (h.readable _ _ hes).entries
      · simp
    refine h.set (by decide) (.inr ⟨.inl ⟨hserver, rfl⟩, _, rfl, fun e he => ?_⟩)
    obtain ⟨e, hmem, rfl⟩ := List.mem_map.1 he
    dsimp only
    split_ifs
    · exact Property.not_masked_string
    · exact hentries e hmem

theorem legible_each (h : r.Legible) : (each ts r).Legible := by
  induction ts generalizing r with
  | nil => exact h
  | cons t ts ih => exact ih (legible_resource h)

theorem legible_all (h : g.Legible) : (all ts g).Legible := by
  intro n r hr
  rw [all_resource?] at hr
  obtain ⟨q, hq, rfl⟩ := Option.map_eq_some_iff.1 hr
  exact legible_each (h n q hq)

end Retag

namespace ResourceGraph

theorem legible_merged {g fragment merged : ResourceGraph} (hg : g.Legible)
    (hfragment : fragment.Legible) (h : g.merged fragment = .ok merged) : merged.Legible := by
  intro n r hr
  rw [(of_merged_eq_ok h).1, Option.or_eq_some_iff] at hr
  rcases hr with hr | ⟨-, hr⟩
  · exact hfragment n r hr
  · exact hg n r hr

/-- All templates of the graph are legible. -/
def LegibleThroughout (g : ResourceGraph) : Prop :=
  ∀ place t, g.template? place = some t → t.Legible

theorem LegibleThroughout.of_legible {g : ResourceGraph} (hg : g.Legible) (hfiles : g.files = []) :
    g.LegibleThroughout := by
  rintro (_ | f) t ht
  · cases ht
    exact hg
  · cases (file?_of_nil hfiles f).symm.trans ht

theorem LegibleThroughout.regrouped {g : ResourceGraph} (hg : g.Legible) (hfiles : g.files = [])
    (p : ScalingPolicy) : (g.regrouped p).LegibleThroughout := by
  intro place t ht n r hr
  rcases of_regrouped_template? hfiles ht with ⟨-, rfl⟩ | ⟨-, rfl⟩
  · rw [regrouped_resource?, Option.or_eq_some_iff] at hr
    rcases hr with hr | ⟨-, hr⟩
    · exact p.legible_fragment n r hr
    · exact hg n r (without_resource?.1 hr).1
  · exact hg n r (members_resource?.1 hr).1

theorem LegibleThroughout.withScaling {g base : ResourceGraph} {d : Descriptor}
    {s : ScalingSynthesis} (hg : g.Legible) (hfiles : g.files = []) (hs : d.scaling = .ok s)
    (h : g.withScaling s = .ok base) : base.LegibleThroughout := by
  rcases hp : s.policy with _ | p
  · rw [ResourceGraph.withScaling, hp] at h
    cases h
    exact .of_legible hg hfiles
  · obtain ⟨-, -, -, rfl, -⟩ := of_withScaling_eq_ok hp (fragment_of_scaling hs hp) h
    exact .regrouped hg hfiles p

theorem LegibleThroughout.alarmed {base : ResourceGraph} {d : Descriptor} {workloadId : String}
    {s : AlarmSynthesis} (hbase : base.LegibleThroughout) (h : d.alarms base workloadId = .ok s) :
    s.merged.LegibleThroughout := by
  rintro (_ | f) t ht
  · cases ht
    rcases Descriptor.of_alarms_eq_ok h with ⟨-, rfl⟩ | ⟨done, hadd, hmerged, -⟩
    · exact hbase none base rfl
    · obtain ⟨-, hfragment, -⟩ := Descriptor.addAlarms_adds d.alarmsByName.ascending hadd
      refine legible_merged ?_ (fun n r hr => ?_) hmerged
      · rw [(Descriptor.addAlarms_merged hadd).1]
        exact Retag.legible_all (hbase none base rfl)
      · rw [hfragment, Option.or_eq_some_iff] at hr
        rcases hr with hr | ⟨-, hr⟩
        · obtain ⟨a, -, rfl⟩ := Option.map_eq_some_iff.1 hr
          exact AlarmPolicy.legible_alarm
        · cases hr
  · obtain ⟨ts, hts⟩ := Descriptor.alarmed_of_alarms h
    obtain ⟨nested, hnested, rfl⟩ := Option.map_eq_some_iff.1 ((hts.file? f).symm.trans ht)
    exact Retag.legible_all (hbase (some f) nested hnested)

end ResourceGraph

/-- The properties of a resource in a template refer to `n` where validation does not see it. -/
def Value.Overlooked (template : Value) (name : String) (properties : Value) (n : String) : Prop :=
  properties.StraysTo n
    ∨ ∃ type key v, template.path? ["resources", name, "type"] = some (.string type)
      ∧ Verbatim type key ∧ properties.member? key = some v ∧ v.PointsTo n

/-- In every template of the planned graph, whatever the properties of a resource refer to is a
resource of the template, unless the reference is overlooked. -/
def ResourceGraph.Resolves (planned : ResourceGraph) : Prop :=
  ∀ place t, planned.template? place = some t → ∀ name properties,
    t.toTemplate.path? ["resources", name, "properties"] = some properties →
    ∀ n, properties.RefersTo n → (∃ r, t.toTemplate.path? ["resources", n] = some r)
      ∨ t.toTemplate.Overlooked name properties n

namespace Resource

variable {r : Resource} {n : String}

/-- The properties of a resource in JSON. -/
def propertiesValue (r : Resource) : Value := .ofTable (r.properties.map fun _ p => p.toValue)

theorem mem_propertiesValue {m : String × Value} :
    m ∈ (r.properties.map fun _ p => p.toValue).entries
      ↔ ∃ p, r.properties.get? m.1 = some p ∧ p.toValue = m.2 := by
  obtain ⟨key, v⟩ := m
  rw [Table.mem_entries, Table.get?_map, Option.map_eq_some_iff]

theorem propertiesValue_member? {key : String} {p : Property}
    (h : r.properties.get? key = some p) :
    r.propertiesValue.member? key = some p.toValue := by
  change (r.properties.map fun _ p => p.toValue).get? key = _
  rw [Table.get?_map, h, Option.map_some]

theorem toTemplate_properties {v : Value} (h : r.toTemplate.member? "properties" = some v) :
    v = r.propertiesValue := by
  unfold toTemplate at h
  split at h
  · cases h
  · cases h
    rfl

/-- The properties of a legible resource are not together a reference. -/
theorem Legible.not_pointsTo (h : r.Legible) : ¬r.propertiesValue.PointsTo n := by
  intro hpoints
  have hsingle : ∃ key arg, (r.properties.map fun _ p => p.toValue).entries = [(key, arg)]
      ∧ key ∈ Value.referenceKeys := by
    generalize hv : r.propertiesValue = v at hpoints
    rcases hpoints with _ | _
    · exact ⟨_, _, Value.object.inj hv, by decide⟩
    · exact ⟨_, _, Value.object.inj hv, by decide⟩
  obtain ⟨key, arg, hentries, hkey⟩ := hsingle
  obtain ⟨p, hp, -⟩ := mem_propertiesValue.1 (hentries ▸ List.mem_singleton_self (key, arg))
  -- What has a member with the name of a reference has a network beside it.
  obtain ⟨q, hq⟩ := Table.contains_iff.1 (h.named key hkey (Table.contains_of_get? hp))
  have hnetwork : ("network", q.toValue) ∈ [(key, arg)] :=
    hentries ▸ mem_propertiesValue.2 ⟨q, hq, rfl⟩
  obtain rfl : "network" = key := congrArg Prod.fst (List.mem_singleton.1 hnetwork)
  exact absurd hkey (by decide)

/-- What the properties refer to in JSON, they refer to in a way that validation sees, or by a path
that is none, or through a mapping put there verbatim that is itself the reference. -/
theorem Legible.refersTo (h : r.Legible) (href : r.propertiesValue.RefersTo n) :
    r.RefersTo n ∨ r.propertiesValue.StraysTo n
      ∨ ∃ key v, Verbatim r.type key ∧ r.propertiesValue.member? key = some v ∧ v.PointsTo n := by
  generalize hv : r.propertiesValue = v at href
  rcases href with hpoints | _ | ⟨hm, href⟩
  · exact absurd (hv ▸ hpoints) h.not_pointsTo
  · cases hv
  · rename_i m ms
    obtain rfl := Value.object.inj hv
    obtain ⟨p, hp, hvalue⟩ := mem_propertiesValue.1 hm
    rw [← hvalue] at href
    have hstray : p.toValue.StraysTo n → (Value.object _).StraysTo n :=
      fun hstray => .member hm (hvalue ▸ hstray)
    rcases h.readable m.1 p hp with hmask | ⟨hverbatim, es, rfl, hes⟩
    · rcases Property.refersTo_of_toValue hmask href with hsees | hstrays
      · exact .inl ⟨m.1, p, hp, hsees⟩
      · exact .inr (.inl (hstray hstrays))
    · rcases href with hpoints | _ | ⟨he, href⟩
      · exact .inr (.inr ⟨m.1, _, hverbatim, propertiesValue_member? hp, hpoints⟩)
      · obtain ⟨e, hmem, rfl, hor⟩ := Property.refersTo_of_toMembers hes he href
        rcases hor with hsees | hstrays
        · exact .inl ⟨m.1, _, hp, .entry hmem hsees⟩
        · exact .inr (.inl (hstray (.member he hstrays)))

end Resource

/-! ## Templates of a plan -/

namespace ResourceGraph

variable {g t : ResourceGraph} {name n : String}

theorem resource?_of_path? {path : List String} {v : Value}
    (h : g.toTemplate.path? ("resources" :: name :: path) = some v) :
    ∃ r, g.resource? name = some r ∧ r.toTemplate.path? path = some v := by
  rcases hr : g.resource? name with _ | r
  · have hnone : (g.resources.map fun _ r => r.toTemplate).get? name = none := by
      rw [Table.get?_map]
      exact congrArg _ hr
    rw [Value.path?_cons, toTemplate_resources, Option.bind_some, Value.path?_cons] at h
    cases (congrArg (Option.bind · (Value.path? path)) hnone).symm.trans h
  · exact ⟨r, rfl, (toTemplate_path? hr path).symm.trans h⟩

/-- In a coherent graph of legible resources a reference leads somewhere, unless it is
overlooked. -/
theorem Coherent.resolves (hcoherent : g.Coherent) (hlegible : g.Legible) {properties : Value}
    (h : g.toTemplate.path? ["resources", name, "properties"] = some properties)
    (href : properties.RefersTo n) : (∃ r, g.toTemplate.path? ["resources", n] = some r)
      ∨ g.toTemplate.Overlooked name properties n := by
  obtain ⟨r, hr, hproperties⟩ := resource?_of_path? h
  have hmember : r.toTemplate.member? "properties" = some properties := by
    rw [Value.path?_cons] at hproperties
    obtain ⟨v, hv, heq⟩ := Option.bind_eq_some_iff.1 hproperties
    exact hv.trans heq
  obtain rfl := Resource.toTemplate_properties hmember
  rcases (hlegible name r hr).refersTo href with hedge | hstrays | ⟨key, v, hverbatim, hv, hpoints⟩
  · obtain ⟨r', hr'⟩ := Table.contains_iff.1 (hcoherent.references name n ⟨r, hr, hedge⟩)
    exact .inl ⟨r'.toTemplate, toTemplate_path? hr' []⟩
  · exact .inr (.inl hstrays)
  · refine .inr (.inr ⟨r.type, key, v, ?_, hverbatim, hv, hpoints⟩)
    rw [toTemplate_path? hr]
    exact congrArg (Option.bind · some) Resource.toTemplate_type

theorem nestedIn_of_template? {place : Option String} (h : g.template? place = some t) :
    t.NestedIn g := by
  rcases place with _ | f
  · cases h
    exact .self g
  · exact .file (Entries.mem_of_get? h) (.self t)

theorem validate_withScaling {d : Descriptor} {s : ScalingSynthesis} {base : ResourceGraph}
    (hg : g.validate = .ok ()) (hs : d.scaling = .ok s) (h : g.withScaling s = .ok base) :
    base.validate = .ok () := by
  rcases hp : s.policy with _ | p
  · rw [withScaling, hp] at h
    cases h
    exact hg
  · obtain ⟨-, -, -, rfl, hv⟩ := of_withScaling_eq_ok hp (fragment_of_scaling hs hp) h
    exact hv

end ResourceGraph

namespace Descriptor

theorem validate_alarms {d : Descriptor} {base : ResourceGraph} {workloadId : String}
    {s : AlarmSynthesis} (hbase : base.validate = .ok ()) (h : d.alarms base workloadId = .ok s) :
    s.merged.validate = .ok () := by
  unfold alarms at h
  dsimp only at h
  split_ifs at h
  · cases h
    exact hbase
  · obtain ⟨done, -, h⟩ := bind_eq_ok_iff.1 h
    obtain ⟨merged, -, h⟩ := bind_eq_ok_iff.1 h
    obtain ⟨_, hvalid, h⟩ := bind_eq_ok_iff.1 h
    cases h
    exact mapError_eq_ok_iff.1 hvalid

variable {m : Type → Type} [Monad m] [LawfulMonad m] [MonadAttach m] [LawfulMonadAttach m]
variable {d : Descriptor} {settings : CompilerSettings} {parameters : Option Parameters}
variable {catalog : Catalog m} {workloadId : String} {plan : Plan}

theorem validate_of_plan (h : CanReturn (d.plan settings parameters catalog workloadId) plan) :
    plan.graph.validate = .ok () := by
  obtain ⟨compiled, s, base, alarms, hcompiled, hs, hbase, halarms, rfl⟩ := stages_of_plan h
  exact validate_alarms
    (ResourceGraph.validate_withScaling (of_compile hcompiled).valid hs hbase) halarms

theorem legible_of_plan (h : CanReturn (d.plan settings parameters catalog workloadId) plan) :
    plan.graph.LegibleThroughout := by
  obtain ⟨compiled, s, base, alarms, hcompiled, hs, hbase, halarms, rfl⟩ := stages_of_plan h
  exact (ResourceGraph.LegibleThroughout.withScaling (legible_of_compile hcompiled)
    (of_compile hcompiled).files hs hbase).alarmed halarms

/-- Every reference in the properties of a resource, in every template of a plan, leads to a
resource of the same template, unless it is overlooked. -/
theorem plan_resolves (h : CanReturn (d.plan settings parameters catalog workloadId) plan) :
    plan.graph.Resolves := by
  intro place t ht name properties hproperties n href
  have hcoherent := ResourceGraph.validate_eq_ok_iff.1 (validate_of_plan h) t
    (ResourceGraph.nestedIn_of_template? ht)
  exact hcoherent.resolves (legible_of_plan h place t ht) hproperties href

theorem scaledStore_resolves :
    ∃ plan, CanReturn (scaledStore.plan .default none oldCatalog "w") plan
      ∧ plan.graph.Resolves := by
  obtain ⟨plan, hplan⟩ := scaledStore_plan
  exact ⟨plan, hplan, plan_resolves hplan⟩

/-- A server whose metadata looks like a reference. -/
def misnamed : Descriptor :=
  (Descriptor.named "vnf").withComponent "VDU1" (.compute
    { Compute.blank with metadata := Table.empty.put "get_resource" (.string "nowhere") })

/-- The graph that it is planned as. -/
def misnamedGraph : ResourceGraph :=
  { ResourceGraph.empty with
    resources := Table.empty.put "VDU1" ((Resource.new serverType).set "metadata"
      (.single "get_resource" (.string "nowhere"))) }

/-- What looks like a reference is none that validation sees, and leads nowhere. -/
theorem misnamed_dangles :
    ∃ plan, CanReturn (misnamed.plan .default none oldCatalog "w") plan
      ∧ ∃ properties,
        plan.graph.toTemplate.path? ["resources", "VDU1", "properties"] = some properties
        ∧ properties.RefersTo "nowhere"
        ∧ plan.graph.toTemplate.path? ["resources", "nowhere"] = none := by
  -- Some of what planning calls recurs on a measure, which `rfl` alone does not open.
  have hplan : (misnamed.plan .default none oldCatalog "w").run
      = .ok ⟨misnamedGraph, .empty, .empty, .empty⟩ := by with_unfolding_all rfl
  refine ⟨_, hplan, .object [("metadata", .single "get_resource" (.string "nowhere"))], ?_, ?_, ?_⟩
  · rfl
  · exact .member List.mem_cons_self (.here (.resource "nowhere"))
  · rfl

end Descriptor

end Provision
