import Provision.Plan
import Provision.Proofs.Compiled
import Provision.Proofs.Splitting
import Provision.Proofs.Watching

/-!
# The templates of a plan

Planning moves what was compiled into templates: the graph of the plan and, if something scales, the
members' template nested in it. Everything keeps its name and, but for the metadata of servers, its
body; what refers to each other stays together, and every output stays with its source
(`housed_of_plan`).
-/

namespace Provision

open MonadAttach LawfulMonadAttach

/-! ## Retagging again and again -/

namespace Retag

variable {t : Retag} {ts : List Retag} {r : Resource} {g : ResourceGraph}

theorem resource_type : (t.resource r).type = r.type := by
  unfold resource
  split
  · rfl
  · rfl

theorem resource_get? {key : String} (h : key ≠ "metadata") :
    (t.resource r).properties.get? key = r.properties.get? key := by
  unfold resource
  split
  · rfl
  · exact Table.get?_put.trans (if_neg h)

theorem resource_of_ne (h : r.type ≠ serverType) : t.resource r = r := by
  unfold resource
  rw [if_pos]
  unfold matchesIn metadataOf
  rw [if_neg h]
  rfl

/-- The resource once every retagging has been applied. -/
def each (ts : List Retag) (r : Resource) : Resource := ts.foldl (fun r t => t.resource r) r

/-- The graph once every retagging has been applied. -/
def all (ts : List Retag) (g : ResourceGraph) : ResourceGraph := ts.foldl (fun g t => t.graph g) g

theorem each_type : (each ts r).type = r.type := by
  induction ts generalizing r with
  | nil => rfl
  | cons t ts ih => exact ih.trans resource_type

theorem each_get? {key : String} (h : key ≠ "metadata") :
    (each ts r).properties.get? key = r.properties.get? key := by
  induction ts generalizing r with
  | nil => rfl
  | cons t ts ih => exact ih.trans (resource_get? h)

theorem each_of_ne (h : r.type ≠ serverType) : each ts r = r := by
  induction ts with
  | nil => rfl
  | cons t ts ih =>
    rw [each, List.foldl_cons, resource_of_ne h]
    exact ih

theorem each_networkReferences : (each ts r).networkReferences = r.networkReferences := by
  unfold Resource.networkReferences
  rw [each_get? (by decide)]

theorem all_resource? {name : String} :
    (all ts g).resource? name = (g.resource? name).map (each ts) := by
  induction ts generalizing g with
  | nil => exact Option.map_id'.symm
  | cons t ts ih =>
    rw [all, List.foldl_cons, ← all, ih, graph_resource?, Option.map_map]
    rfl

theorem all_outputs : (all ts g).outputs = g.outputs := by
  induction ts generalizing g with
  | nil => rfl
  | cons t ts ih =>
    rw [all, List.foldl_cons, ← all, ih, graph_eq]

theorem all_files : (all ts g).files = g.files.map fun e => (e.1, all ts e.2) := by
  induction ts generalizing g with
  | nil => exact (List.map_id' _).symm
  | cons t ts ih =>
    rw [all, List.foldl_cons, ← all, ih, graph_eq, graphFiles_eq, List.map_map]
    rfl

theorem all_file? {f : String} : (all ts g).file? f = (g.file? f).map (all ts) := by
  unfold ResourceGraph.file?
  rw [all_files]
  exact Entries.get?_map fun _ => all ts

end Retag

namespace Descriptor

variable {d : Descriptor} {scaling : Option ScalingPolicy} {suffix : String}
variable {named : List (String × AlarmPolicy)} {done final : AlarmSynthesis}

theorem addAlarms_merged (h : addAlarms scaling suffix named done = .ok final) :
    final.merged = Retag.all (named.map fun e => ⟨e.2.metadata, alarmTag e.2 suffix⟩) done.merged
      ∧ final.fragment.outputs = done.fragment.outputs := by
  induction named generalizing done with
  | nil =>
    cases h
    exact ⟨rfl, rfl⟩
  | cons e named ih => exact ih (of_addAlarms_cons h).2

end Descriptor

/-- The graph with its servers retagged and alarms added to it. -/
structure ResourceGraph.Alarmed (ts : List Retag) (base planned : ResourceGraph) : Prop where
  outputs : planned.outputs = base.outputs
  files : planned.files = (Retag.all ts base).files
  kept : ∀ n r, base.resource? n = some r → planned.resource? n = some (Retag.each ts r)
  only : ∀ n r, planned.resource? n = some r →
    r.type = alarmType ∨ ∃ r₀, base.resource? n = some r₀ ∧ r = Retag.each ts r₀

theorem ResourceGraph.alarmed_of_merged {ts : List Retag} {base fragment planned : ResourceGraph}
    (h : (Retag.all ts base).merged fragment = .ok planned) (hout : fragment.outputs = .empty)
    (hfiles : fragment.files = [])
    (hfragment : ∀ n r, fragment.resource? n = some r → r.type = alarmType) :
    Alarmed ts base planned := by
  obtain ⟨hresource, hfree, hmerged⟩ := of_merged_eq_ok h
  refine ⟨?_, ?_, fun n r hr => ?_, fun n r hr => ?_⟩
  · rw [merged_of_free hfree] at h
    cases h
    rw [hout]
    exact Retag.all_outputs
  · rw [hmerged, hfiles, List.foldl_nil]
  · have hall : (Retag.all ts base).resource? n = some (Retag.each ts r) := by
      rw [Retag.all_resource?, hr, Option.map_some]
    have hnone : fragment.resource? n = none := by
      rw [← Option.not_isSome_iff_eq_none]
      exact fun hn => hfree n hn (Table.contains_of_get? hall)
    rw [hresource, hnone, hall, Option.none_or]
  · rw [hresource, Option.or_eq_some_iff] at hr
    rcases hr with hr | ⟨-, hr⟩
    · exact .inl (hfragment n r hr)
    · rw [Retag.all_resource?, Option.map_eq_some_iff] at hr
      obtain ⟨r₀, hr₀, rfl⟩ := hr
      exact .inr ⟨r₀, hr₀, rfl⟩

theorem Descriptor.alarmed_of_alarms {d : Descriptor} {base : ResourceGraph} {workloadId : String}
    {s : AlarmSynthesis} (h : d.alarms base workloadId = .ok s) :
    ∃ ts, ResourceGraph.Alarmed ts base s.merged := by
  rcases of_alarms_eq_ok h with ⟨-, rfl⟩ | ⟨done, hadd, hmerged, -⟩
  · refine ⟨[], rfl, rfl, fun _ _ hr => hr, fun n r hr => .inr ⟨r, hr, rfl⟩⟩
  · obtain ⟨hbase, hout⟩ := addAlarms_merged hadd
    obtain ⟨-, hfragment, hfiles⟩ := addAlarms_adds d.alarmsByName.ascending hadd
    rw [hbase] at hmerged
    refine ⟨_, ResourceGraph.alarmed_of_merged hmerged hout hfiles fun n r hr => ?_⟩
    rw [hfragment, Option.or_eq_some_iff] at hr
    rcases hr with hr | ⟨-, hr⟩
    · obtain ⟨a, -, rfl⟩ := Option.map_eq_some_iff.1 hr
      rfl
    · cases hr

/-! ## Where everything is -/

namespace ResourceGraph

/-- A template: the graph itself, or the one nested in it under a file name. -/
def template? (g : ResourceGraph) : Option String → Option ResourceGraph
  | none => some g
  | some f => g.file? f

/-- How the templates of a planned graph hold what was in the graph before: every resource at home,
servers nowhere else, what refers to each other in one place, every output with its source. -/
structure Housed (g planned : ResourceGraph) (home : String → Option String) : Prop where
  resources : ∀ n r, g.resource? n = some r → ∃ t r', planned.template? (home n) = some t
    ∧ t.resource? n = some r' ∧ r'.type = r.type ∧ r'.networkReferences = r.networkReferences
  servers : ∀ place t n r, planned.template? place = some t → t.resource? n = some r →
    r.type = serverType → home n = place
  references : ∀ n t, g.Edge n t → home n = home t
  outputs : ∀ place t, planned.template? place = some t → ∀ k o, t.outputs.get? k = some o ↔
    g.outputs.get? k = some o ∧ home o.resource = place
  files : ∀ e ∈ planned.files, planned.file? e.1 = some e.2 ∧ e.2.files = []

/-- Nothing is nested but the templates. -/
theorem Housed.template_of_nestedIn {g planned inner : ResourceGraph}
    {home : String → Option String} (h : Housed g planned home) (hin : inner.NestedIn planned) :
    ∃ place, planned.template? place = some inner := by
  rcases nestedIn_iff.1 hin with rfl | ⟨e, he, hin⟩
  · exact ⟨none, rfl⟩
  · obtain ⟨hfile, hnil⟩ := h.files e he
    rcases nestedIn_iff.1 hin with rfl | ⟨e', he', -⟩
    · exact ⟨some e.1, hfile⟩
    · rw [hnil] at he'
      cases he'

theorem file?_of_nil {g : ResourceGraph} (h : g.files = []) (f : String) : g.file? f = none := by
  rw [file?, h, Entries.get?]

theorem housed_self {g : ResourceGraph} (h : g.files = []) : Housed g g fun _ => none where
  resources n r hr := ⟨g, r, rfl, hr, rfl, rfl⟩
  servers place t n r ht _ _ := by
    rcases place with _ | f
    · rfl
    · cases (file?_of_nil h f).symm.trans ht
  references _ _ _ := rfl
  outputs place t ht k o := by
    rcases place with _ | f
    · cases ht
      simp
    · cases (file?_of_nil h f).symm.trans ht
  files e he := by
    rw [h] at he
    cases he

theorem fragment_type_ne {p : ScalingPolicy} {n : String} {r : Resource}
    (h : p.fragment.resource? n = some r) : r.type ≠ serverType := by
  rw [p.fragment_resource?] at h
  split_ifs at h <;> cases h
  · exact (by decide : signalPolicyType ≠ serverType)
  · exact (by decide : signalPolicyType ≠ serverType)
  · exact (by decide : groupType ≠ serverType)

/-- The home of a resource once the members have moved. -/
def homeBeside (members : ResourceGraph) (file n : String) : Option String :=
  if members.contains n then some file else none

section Regrouped

variable {g : ResourceGraph} {p : ScalingPolicy}

theorem regrouped_files (h : g.files = []) :
    (g.regrouped p).files = [(memberFile p.name, g.members (g.owned p.targets))] := by
  change Entries.put _ _ g.files = _
  rw [h, Entries.put]

/-- The templates are the graph itself and that of the members. -/
theorem of_regrouped_template? (h : g.files = []) {place : Option String} {t : ResourceGraph}
    (ht : (g.regrouped p).template? place = some t) :
    (place = none ∧ t = g.regrouped p)
      ∨ (place = some (memberFile p.name) ∧ t = g.members (g.owned p.targets)) := by
  rcases place with _ | f
  · cases ht
    exact .inl ⟨rfl, rfl⟩
  · rw [template?, regrouped_file?, file?_of_nil h] at ht
    split_ifs at ht with hf
    cases ht
    exact .inr ⟨congrArg some hf, rfl⟩

theorem housed_regrouped (hfiles : g.files = [])
    (h : Divides g p p.fragment (g.regrouped p) (g.members (g.owned p.targets))) :
    Housed g (g.regrouped p)
      (homeBeside (g.members (g.owned p.targets)) (memberFile p.name)) := by
  set members := g.members (g.owned p.targets)
  have hfile : (g.regrouped p).file? (memberFile p.name) = some members := by
    rw [regrouped_file?, if_pos rfl]
  refine
    { resources := fun n r hr => ?_
      servers := fun place t n r ht hr htype => ?_
      references := fun n t hnt => ?_
      outputs := fun place t ht k o => ?_
      files := fun e he => ?_ }
  · unfold homeBeside
    split_ifs with hn
    · exact ⟨members, r, hfile, (h.movedResources n r).2 ⟨hr, hn⟩, rfl, rfl⟩
    · exact ⟨g.regrouped p, r, rfl, (h.keptResources n r).2 (.inr ⟨hr, hn⟩), rfl, rfl⟩
  · unfold homeBeside
    rcases of_regrouped_template? hfiles ht with ⟨rfl, rfl⟩ | ⟨rfl, rfl⟩
    · rcases (h.keptResources n r).1 hr with hr | ⟨-, hn⟩
      · exact absurd htype (fragment_type_ne hr)
      · rw [if_neg hn]
    · rw [if_pos ((h.movedResources n r).1 hr).2]
  · unfold homeBeside
    simp only [h.references n t hnt]
  · unfold homeBeside
    rcases of_regrouped_template? hfiles ht with ⟨rfl, rfl⟩ | ⟨rfl, rfl⟩
    · rw [h.keptOutputs]
      split_ifs with hn <;> simp [hn]
    · rw [h.movedOutputs]
      split_ifs with hn <;> simp [hn]
  · rw [regrouped_files hfiles, List.mem_singleton] at he
    subst he
    exact ⟨hfile, rfl⟩

end Regrouped

section Alarmed

variable {g base planned : ResourceGraph} {ts : List Retag} {home : String → Option String}

theorem Alarmed.file? (h : Alarmed ts base planned) (f : String) :
    planned.file? f = (base.file? f).map (Retag.all ts) := by
  rw [← Retag.all_file?, ResourceGraph.file?, h.files, ← ResourceGraph.file?]

/-- A template after the alarms, by the one before. -/
theorem Alarmed.template? (h : Alarmed ts base planned) {place : Option String} {t' : ResourceGraph}
    (ht : planned.template? place = some t') : ∃ t, base.template? place = some t
      ∧ t'.outputs = t.outputs
      ∧ ∀ n r, t'.resource? n = some r →
        r.type = alarmType ∨ ∃ r₀, t.resource? n = some r₀ ∧ r = Retag.each ts r₀ := by
  rcases place with _ | f
  · cases ht
    exact ⟨base, rfl, h.outputs, h.only⟩
  · obtain ⟨t, htf, rfl⟩ := Option.map_eq_some_iff.1 ((h.file? f).symm.trans ht)
    refine ⟨t, htf, Retag.all_outputs, fun n r hr => .inr ?_⟩
    rw [Retag.all_resource?, Option.map_eq_some_iff] at hr
    obtain ⟨r₀, hr₀, rfl⟩ := hr
    exact ⟨r₀, hr₀, rfl⟩

/-- A template before the alarms, by the one after. -/
theorem Alarmed.of_template? (h : Alarmed ts base planned) {place : Option String}
    {t : ResourceGraph} (ht : base.template? place = some t) :
    ∃ t', planned.template? place = some t'
      ∧ ∀ n r, t.resource? n = some r → t'.resource? n = some (Retag.each ts r) := by
  rcases place with _ | f
  · cases ht
    exact ⟨planned, rfl, h.kept⟩
  · refine ⟨Retag.all ts t, (h.file? f).trans (congrArg _ ht), fun n r hr => ?_⟩
    rw [Retag.all_resource?, hr, Option.map_some]

theorem Housed.alarmed (h : Housed g base home) (ha : Alarmed ts base planned) :
    Housed g planned home where
  resources n r hr := by
    obtain ⟨t, r', ht, hr', htype, hrefs⟩ := h.resources n r hr
    obtain ⟨t', ht', hkept⟩ := ha.of_template? ht
    exact ⟨t', _, ht', hkept n r' hr', Retag.each_type.trans htype,
      Retag.each_networkReferences.trans hrefs⟩
  servers place t' n r ht' hr htype := by
    obtain ⟨t, ht, -, honly⟩ := ha.template? ht'
    rcases honly n r hr with halarm | ⟨r₀, hr₀, rfl⟩
    · rw [htype] at halarm
      exact absurd halarm (by decide)
    · exact h.servers place t n r₀ ht hr₀ (Retag.each_type.symm.trans htype)
  references := h.references
  outputs place t' ht' k o := by
    obtain ⟨t, ht, hout, -⟩ := ha.template? ht'
    rw [hout]
    exact h.outputs place t ht k o
  files e he := by
    rw [ha.files, Retag.all_files] at he
    obtain ⟨e₀, he₀, rfl⟩ := List.mem_map.1 he
    obtain ⟨hfile, hnil⟩ := h.files e₀ he₀
    refine ⟨(ha.file? e₀.1).trans (congrArg _ hfile), ?_⟩
    rw [Retag.all_files, hnil, List.map_nil]

end Alarmed

end ResourceGraph

namespace Descriptor

section Monad

variable {m : Type → Type} [Monad m] [LawfulMonad m] [MonadAttach m] [LawfulMonadAttach m]
variable {d : Descriptor} {settings : CompilerSettings} {parameters : Option Parameters}
variable {catalog : Catalog m} {workloadId : String} {plan : Plan}

/-- The stages that a plan comes about by. -/
theorem stages_of_plan (h : CanReturn (d.plan settings parameters catalog workloadId) plan) :
    ∃ compiled s base alarms, CanReturn (d.compile settings parameters catalog) compiled
      ∧ d.scaling = .ok s ∧ compiled.graph.withScaling s = .ok base
      ∧ d.alarms base workloadId = .ok alarms
      ∧ plan = ⟨alarms.merged, compiled.monitoring, s.bindings, alarms.tags⟩ := by
  obtain ⟨compiled, hcompiled, h⟩ := canReturn_bind_imp' h
  obtain ⟨s, hs, h⟩ := canReturn_bind_imp' h
  obtain ⟨base, hbase, h⟩ := canReturn_bind_imp' h
  obtain ⟨alarms, halarms, h⟩ := canReturn_bind_imp' h
  cases eq_of_canReturn_pure (m := m) h
  exact ⟨compiled, s, base, alarms, hcompiled, ok_of_canReturn_liftM hs,
    ok_of_canReturn_liftM hbase, ok_of_canReturn_liftM halarms, rfl⟩

/-- How a plan comes about: what is compiled has its members moved, and then its alarms added. -/
theorem of_plan (h : CanReturn (d.plan settings parameters catalog workloadId) plan) :
    ∃ g s base ts, d.CompilesTo g ∧ d.scaling = .ok s ∧ g.withScaling s = .ok base
      ∧ ResourceGraph.Alarmed ts base plan.graph ∧ plan.bindings = s.bindings := by
  obtain ⟨compiled, s, base, alarms, hcompiled, hs, hbase, halarms, rfl⟩ := stages_of_plan h
  obtain ⟨ts, hts⟩ := alarmed_of_alarms halarms
  exact ⟨compiled.graph, s, base, ts, of_compile hcompiled, hs, hbase, hts, rfl⟩

theorem housed_of_plan (h : CanReturn (d.plan settings parameters catalog workloadId) plan) :
    ∃ g home, d.CompilesTo g ∧ ResourceGraph.Housed g plan.graph home := by
  obtain ⟨g, s, base, ts, hg, hs, hbase, halarms, -⟩ := of_plan h
  rcases hp : s.policy with _ | p
  · have hsame : g = base := by
      rw [ResourceGraph.withScaling, hp] at hbase
      cases hbase
      rfl
    subst hsame
    exact ⟨g, _, hg, (ResourceGraph.housed_self hg.files).alarmed halarms⟩
  · obtain ⟨ht, hu, hf, rfl, hv⟩ := ResourceGraph.of_withScaling_eq_ok hp
      (ResourceGraph.fragment_of_scaling hs hp) hbase
    have hdivides := ResourceGraph.regrouped_divides ht hu hf hv
    exact ⟨g, _, hg, (ResourceGraph.housed_regrouped hg.files hdivides).alarmed halarms⟩

end Monad

/-- A server that is managed through a port, with a volume, in a group of its own. -/
def scaledStore : Descriptor := storeDescriptor.withPolicy (.scaling ResourceGraph.lonePolicy)

theorem scaledStore_plan :
    ∃ plan, CanReturn (scaledStore.plan .default none oldCatalog "w") plan := by
  have hok : (scaledStore.plan .default none oldCatalog "w").run.toBool = true := by decide +kernel
  rcases hp : (scaledStore.plan .default none oldCatalog "w").run with fault | plan
  · rw [hp] at hok
    cases hok
  · exact ⟨plan, hp⟩

end Descriptor

end Provision
