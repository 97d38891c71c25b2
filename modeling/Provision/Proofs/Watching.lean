import Provision.Alarms
import Provision.Proofs.Regrouping
import Provision.Proofs.Returns

/-!
# Alarms and the servers they watch

Retagging puts a tag in the place of a metadata value wherever a server exposes it, nested graphs
included, and changes no other value (`Retag.graph_exposes`). The alarms of a descriptor do so one
after the other, by name. So the tag of an alarm is lost when a later alarm looks for that very tag
as its metadata value, and comes back if an alarm after that has the first one's metadata again:
what decides is which of the two kinds comes last (`addAlarms_exposes`).
-/

namespace Provision

/-- The resource is a server, and the value is among its metadata. -/
def Resource.Exposes (r : Resource) (value : String) : Prop :=
  r.type = serverType ∧ ∃ entries key, r.properties.get? "metadata" = some (.map entries)
    ∧ (key, .string value) ∈ entries

/-- A server of the graph, or of one nested in it, exposes the value. -/
def ResourceGraph.Exposes (g : ResourceGraph) (value : String) : Prop :=
  ∃ inner : ResourceGraph, inner.NestedIn g
    ∧ ∃ name r, inner.resource? name = some r ∧ r.Exposes value

namespace Retag

variable {t : Retag} {r : Resource} {g : ResourceGraph} {v : String}

/-- What becomes of an exposed value. -/
def rename (t : Retag) (v : String) : String := if v = t.metadata then t.tag else v

/-! ## Servers -/

theorem applies_iff {p : Property} :
    t.applies p = true ↔ p = .string t.metadata ∨ p = .string t.tag := by
  cases p <;> simp [applies, Property.asString?]

theorem exposes_iff : r.Exposes v ↔ ∃ key, (key, .string v) ∈ metadataOf r := by
  unfold Resource.Exposes metadataOf
  constructor
  · rintro ⟨htype, entries, key, hget, hmem⟩
    rw [if_pos htype, hget]
    exact ⟨key, hmem⟩
  · rintro ⟨key, hmem⟩
    split at hmem
    · rename_i htype
      split at hmem
      · rename_i entries hget
        exact ⟨htype, entries, key, hget, hmem⟩
      · cases hmem
    · cases hmem

theorem matchesIn_eq_zero_iff :
    t.matchesIn r = 0 ↔ ¬ r.Exposes t.metadata ∧ ¬ r.Exposes t.tag := by
  have hnone : t.matchesIn r = 0 ↔ ∀ e ∈ metadataOf r, ¬ t.applies e.2 = true :=
    List.countP_eq_zero
  rw [hnone, exposes_iff, exposes_iff]
  constructor
  · intro h
    refine ⟨?_, ?_⟩
    · rintro ⟨key, hmem⟩
      exact h _ hmem (applies_iff.2 (.inl rfl))
    · rintro ⟨key, hmem⟩
      exact h _ hmem (applies_iff.2 (.inr rfl))
  · rintro ⟨hm, ht⟩ ⟨key, p⟩ hmem happ
    rcases applies_iff.1 happ with rfl | rfl
    · exact hm ⟨key, hmem⟩
    · exact ht ⟨key, hmem⟩

theorem metadataOf_set {entries : List (String × Property)} (htype : r.type = serverType) :
    metadataOf (r.set "metadata" (.map entries)) = entries := by
  unfold metadataOf
  rw [if_pos (show (r.set "metadata" (.map entries)).type = serverType from htype), Resource.set,
    Table.get?_put, if_pos rfl]

theorem metadataOf_resource :
    metadataOf (t.resource r)
      = (metadataOf r).map fun e => (e.1, if t.applies e.2 then .string t.tag else e.2) := by
  unfold resource
  split
  · rename_i hzero
    have hnone : ∀ e ∈ metadataOf r, ¬ t.applies e.2 = true := List.countP_eq_zero.1 hzero
    have hsame : ∀ e ∈ metadataOf r,
        (e.1, if t.applies e.2 then .string t.tag else e.2) = e := fun e he => by
      rw [if_neg (hnone e he)]
    rw [List.map_congr_left hsame, List.map_id']
  · rename_i hne
    have htype : r.type = serverType := by
      by_contra h
      exact hne (by simp [matchesIn, metadataOf, h])
    exact metadataOf_set htype

theorem retagged_eq_string_iff {p : Property} :
    (if t.applies p then .string t.tag else p) = .string v
      ↔ ∃ w, p = .string w ∧ t.rename w = v := by
  have htag : t.rename t.tag = t.tag := by
    unfold rename
    split
    · rfl
    · rfl
  split_ifs with happ
  · rcases applies_iff.1 happ with rfl | rfl
    · simp [rename]
    · simp [htag]
  · constructor
    · rintro rfl
      refine ⟨v, rfl, if_neg ?_⟩
      rintro rfl
      exact happ (applies_iff.2 (.inl rfl))
    · rintro ⟨w, rfl, hw⟩
      have hne : w ≠ t.metadata := by
        rintro rfl
        exact happ (applies_iff.2 (.inl rfl))
      rw [← hw, rename, if_neg hne]

theorem resource_exposes : (t.resource r).Exposes v ↔ ∃ w, r.Exposes w ∧ t.rename w = v := by
  rw [exposes_iff, metadataOf_resource]
  constructor
  · rintro ⟨key, hmem⟩
    obtain ⟨⟨key', p⟩, hp, heq⟩ := List.mem_map.1 hmem
    obtain ⟨rfl, hvalue⟩ := Prod.mk.inj heq
    obtain ⟨w, rfl, hw⟩ := retagged_eq_string_iff.1 hvalue
    exact ⟨w, exposes_iff.2 ⟨key', hp⟩, hw⟩
  · rintro ⟨w, hw, hv⟩
    obtain ⟨key, hmem⟩ := exposes_iff.1 hw
    have hvalue := retagged_eq_string_iff.2 ⟨w, rfl, hv⟩
    exact ⟨key, List.mem_map.2 ⟨_, hmem, Prod.ext rfl hvalue⟩⟩

/-! ## Graphs -/

theorem graph_eq (g : ResourceGraph) :
    t.graph g = { g with
      resources := g.resources.map fun _ r => t.resource r
      files := graphFiles t g.files } := by
  cases g
  rw [graph]

theorem graphFiles_eq (files : List (String × ResourceGraph)) :
    graphFiles t files = files.map fun e => (e.1, t.graph e.2) := by
  induction files with
  | nil => rw [graphFiles, List.map_nil]
  | cons e files ih => rw [graphFiles, ih, List.map_cons]

theorem graph_resource? {name : String} :
    (t.graph g).resource? name = (g.resource? name).map t.resource := by
  rw [graph_eq]
  exact Table.get?_map fun _ r => t.resource r

theorem mem_graph_files {e : String × ResourceGraph} :
    e ∈ (t.graph g).files ↔ ∃ f ∈ g.files, (f.1, t.graph f.2) = e := by
  rw [graph_eq]
  show e ∈ graphFiles t g.files ↔ _
  rw [graphFiles_eq, List.mem_map]

/-- What is nested in the retagged graph is what was nested before, retagged. -/
theorem nestedIn_graph {inner : ResourceGraph} :
    inner.NestedIn (t.graph g) ↔ ∃ nested : ResourceGraph, nested.NestedIn g
      ∧ t.graph nested = inner := by
  constructor
  · intro h
    generalize hg : t.graph g = g' at h
    induction h generalizing g with
    | self => exact ⟨g, .self g, hg⟩
    | file hmem _ ih =>
      subst hg
      obtain ⟨⟨name, nested⟩, hfile, heq⟩ := mem_graph_files.1 hmem
      obtain ⟨rfl, rfl⟩ := Prod.mk.inj heq
      obtain ⟨nested', hn, rfl⟩ := ih rfl
      exact ⟨nested', .file hfile hn, rfl⟩
  · rintro ⟨nested, hn, rfl⟩
    induction hn with
    | self => exact .self _
    | file hmem _ ih => exact .file (mem_graph_files.2 ⟨_, hmem, rfl⟩) ih

theorem graph_exposes : (t.graph g).Exposes v ↔ ∃ w, g.Exposes w ∧ t.rename w = v := by
  constructor
  · rintro ⟨inner, hin, name, r, hr, hv⟩
    obtain ⟨nested, hn, rfl⟩ := nestedIn_graph.1 hin
    rw [graph_resource?] at hr
    obtain ⟨r', hr', rfl⟩ := Option.map_eq_some_iff.1 hr
    obtain ⟨w, hw, hwv⟩ := resource_exposes.1 hv
    exact ⟨w, ⟨nested, hn, name, r', hr', hw⟩, hwv⟩
  · rintro ⟨w, ⟨nested, hn, name, r, hr, hw⟩, hwv⟩
    refine ⟨t.graph nested, nestedIn_graph.2 ⟨nested, hn, rfl⟩, name, t.resource r, ?_, ?_⟩
    · rw [graph_resource?, hr, Option.map_some]
    · exact resource_exposes.2 ⟨w, hw, hwv⟩

theorem countP_values_eq_zero_iff {resources : Table Resource} :
    (resources.values.flatMap metadataOf).countP (fun e => t.applies e.2) = 0
      ↔ ∀ name r, resources.get? name = some r → t.matchesIn r = 0 := by
  rw [List.countP_eq_zero]
  constructor
  · intro h name r hr
    refine List.countP_eq_zero.2 fun e he => h e ?_
    exact List.mem_flatMap.2 ⟨r, Table.mem_values.2 ⟨name, hr⟩, he⟩
  · intro h e he
    obtain ⟨r, hr, he⟩ := List.mem_flatMap.1 he
    obtain ⟨name, hr⟩ := Table.mem_values.1 hr
    exact List.countP_eq_zero.1 (h name r hr) e he

mutual

theorem count_eq_zero_iff_matchesIn :
    ∀ (g : ResourceGraph), t.count g = 0 ↔ ∀ inner : ResourceGraph, inner.NestedIn g →
      ∀ name r, inner.resource? name = some r → t.matchesIn r = 0
  | ⟨description, resources, outputs, files⟩ => by
    have hfiles := countFiles_eq_zero_iff_matchesIn files
    rw [count, Nat.add_eq_zero_iff, hfiles, countP_values_eq_zero_iff]
    constructor
    · rintro ⟨hself, hnested⟩ inner h
      rcases ResourceGraph.nestedIn_iff.1 h with rfl | ⟨e, he, h⟩
      · exact hself
      · exact hnested e he inner h
    · intro h
      refine ⟨h _ (.self _), fun e he inner hi => ?_⟩
      exact h inner (ResourceGraph.nestedIn_iff.2 (.inr ⟨e, he, hi⟩))

theorem countFiles_eq_zero_iff_matchesIn :
    ∀ (files : List (String × ResourceGraph)), t.countFiles files = 0 ↔
      ∀ e ∈ files, ∀ inner : ResourceGraph, inner.NestedIn e.2 →
        ∀ name r, inner.resource? name = some r → t.matchesIn r = 0
  | [] => by simp [countFiles]
  | (name, nested) :: files => by
    have hnested := count_eq_zero_iff_matchesIn nested
    have hfiles := countFiles_eq_zero_iff_matchesIn files
    rw [countFiles, Nat.add_eq_zero_iff, List.forall_mem_cons, hnested, hfiles]

end

/-- Nothing is counted exactly if neither the value nor the tag is exposed. -/
theorem count_eq_zero_iff : t.count g = 0 ↔ ¬ g.Exposes t.metadata ∧ ¬ g.Exposes t.tag := by
  rw [count_eq_zero_iff_matchesIn]
  constructor
  · intro h
    refine ⟨?_, ?_⟩
    · rintro ⟨inner, hin, name, r, hr, hexp⟩
      exact (matchesIn_eq_zero_iff.1 (h inner hin name r hr)).1 hexp
    · rintro ⟨inner, hin, name, r, hr, hexp⟩
      exact (matchesIn_eq_zero_iff.1 (h inner hin name r hr)).2 hexp
  · rintro ⟨hm, ht⟩ inner hin name r hr
    refine matchesIn_eq_zero_iff.2 ⟨fun hexp => hm ?_, fun hexp => ht ?_⟩
    · exact ⟨inner, hin, name, r, hr, hexp⟩
    · exact ⟨inner, hin, name, r, hr, hexp⟩

end Retag

/-! ## The alarms in turn -/

namespace Descriptor

variable {scaling : Option ScalingPolicy} {suffix : String} {done final : AlarmSynthesis}
  {rest : List (String × AlarmPolicy)}

theorem alarmTag_ne_metadata {a : AlarmPolicy} : alarmTag a suffix ≠ a.metadata := by
  intro h
  have hdash : "-".length = 1 := rfl
  have hlength := congrArg String.length h
  simp only [alarmTag, String.length_append] at hlength
  omega

theorem alarmTag_eq_iff {a b : AlarmPolicy} :
    alarmTag a suffix = alarmTag b suffix ↔ a.metadata = b.metadata := by
  simp [alarmTag, String.append_assoc]

/-- One alarm more, with its servers retagged. -/
def withAlarm (scaling : Option ScalingPolicy) (suffix : String) (e : String × AlarmPolicy)
    (done : AlarmSynthesis) : AlarmSynthesis :=
  let retag : Retag := ⟨e.2.metadata, alarmTag e.2 suffix⟩
  { done with
    merged := retag.graph done.merged
    fragment := { done.fragment with
      resources := done.fragment.resources.put e.1 (e.2.alarm scaling retag.tag) }
    tags := done.tags.put e.1 retag.tag }

theorem of_addAlarms_cons {e : String × AlarmPolicy}
    (h : addAlarms scaling suffix (e :: rest) done = .ok final) :
    (done.merged.Exposes e.2.metadata ∨ done.merged.Exposes (alarmTag e.2 suffix))
      ∧ addAlarms scaling suffix rest (withAlarm scaling suffix e done) = .ok final := by
  obtain ⟨name, a⟩ := e
  simp only [addAlarms] at h
  split at h
  · cases h
  · rename_i hcount
    rw [Retag.count_eq_zero_iff, ← not_or, not_not] at hcount
    exact ⟨hcount, h⟩

/-- Each alarm adds its own tag and its own resource; nothing is nested in the fragment. -/
theorem addAlarms_adds (ha : Ascending (Entries.names rest))
    (h : addAlarms scaling suffix rest done = .ok final) :
    (∀ name, final.tags.get? name
        = ((Entries.get? name rest).map (alarmTag · suffix)).or (done.tags.get? name))
      ∧ (∀ name, final.fragment.resource? name
        = ((Entries.get? name rest).map fun a => a.alarm scaling (alarmTag a suffix)).or
          (done.fragment.resource? name))
      ∧ final.fragment.files = done.fragment.files := by
  induction rest generalizing done with
  | nil =>
    cases h
    exact ⟨fun _ => rfl, fun _ => rfl, rfl⟩
  | cons e rest ih =>
    simp only [Entries.names, List.map_cons, Ascending, List.pairwise_cons] at ha
    obtain ⟨htags, hfragment, hfiles⟩ := ih ha.2 (of_addAlarms_cons h).2
    have hnone : Entries.get? e.1 rest = none :=
      Entries.get?_eq_none.2 fun hm => String.lt_irrefl e.1 (ha.1 _ hm)
    refine ⟨fun name => ?_, fun name => ?_, hfiles⟩
    · rw [htags, withAlarm, Table.get?_put, Entries.get?]
      split_ifs with hname
      · rw [hname, hnone]
        rfl
      · rfl
    · rw [hfragment, withAlarm, ResourceGraph.resource?, Table.get?_put, Entries.get?]
      split_ifs with hname
      · rw [hname, hnone]
        rfl
      · rfl

theorem withAlarm_exposes {a : AlarmPolicy} {e : String × AlarmPolicy}
    (hmatched : done.merged.Exposes e.2.metadata ∨ done.merged.Exposes (alarmTag e.2 suffix)) :
    (withAlarm scaling suffix e done).merged.Exposes (alarmTag a suffix)
      ↔ e.2.metadata = a.metadata
        ∨ (done.merged.Exposes (alarmTag a suffix) ∧ e.2.metadata ≠ alarmTag a suffix) := by
  rw [withAlarm, Retag.graph_exposes]
  simp only [Retag.rename]
  constructor
  · rintro ⟨w, hw, hrenamed⟩
    split_ifs at hrenamed with hwe
    · exact .inl (alarmTag_eq_iff.1 hrenamed)
    · subst hrenamed
      exact .inr ⟨hw, Ne.symm hwe⟩
  · rintro (hm | ⟨hexposed, hne⟩)
    · rw [← alarmTag_eq_iff.2 hm]
      rcases hmatched with hexposed | hexposed
      · exact ⟨_, hexposed, if_pos rfl⟩
      · exact ⟨_, hexposed, if_neg alarmTag_ne_metadata⟩
    · exact ⟨_, hexposed, if_neg (Ne.symm hne)⟩

/-- The tag of a metadata value is exposed in the end if it was exposed or an alarm has the value,
and no alarm that takes the tag for its own metadata value comes after the last alarm with the
value. -/
theorem addAlarms_exposes {a : AlarmPolicy} (ha : Ascending (Entries.names rest))
    (h : addAlarms scaling suffix rest done = .ok final) :
    final.merged.Exposes (alarmTag a suffix)
      ↔ (done.merged.Exposes (alarmTag a suffix) ∨ ∃ c ∈ rest, c.2.metadata = a.metadata)
        ∧ ∀ b ∈ rest, b.2.metadata = alarmTag a suffix →
          ∃ c ∈ rest, c.2.metadata = a.metadata ∧ b.1 < c.1 := by
  induction rest generalizing done with
  | nil =>
    cases h
    simp
  | cons e rest ih =>
    simp only [Entries.names, List.map_cons, Ascending, List.pairwise_cons] at ha
    obtain ⟨hmatched, h⟩ := of_addAlarms_cons h
    have hafter : ∀ c ∈ rest, e.1 < c.1 := fun c hc => ha.1 c.1 (List.mem_map_of_mem hc)
    -- An alarm of the rest comes after the first one and never before it.
    have hfirst : (∃ c ∈ rest, c.2.metadata = a.metadata ∧ e.1 < c.1)
        ↔ ∃ c ∈ rest, c.2.metadata = a.metadata :=
      ⟨fun ⟨c, hc, hm, _⟩ => ⟨c, hc, hm⟩, fun ⟨c, hc, hm⟩ => ⟨c, hc, hm, hafter c hc⟩⟩
    have hrest : (∀ b ∈ rest, b.2.metadata = alarmTag a suffix →
          (e.2.metadata = a.metadata ∧ b.1 < e.1)
            ∨ ∃ c ∈ rest, c.2.metadata = a.metadata ∧ b.1 < c.1)
        ↔ ∀ b ∈ rest, b.2.metadata = alarmTag a suffix →
          ∃ c ∈ rest, c.2.metadata = a.metadata ∧ b.1 < c.1 := by
      refine forall₂_congr fun b hb => imp_congr_right fun _ => or_iff_right ?_
      exact fun hlt => String.lt_asymm hlt.2 (hafter b hb)
    rw [ih ha.2 h, withAlarm_exposes hmatched]
    simp only [List.mem_cons, exists_eq_or_imp, forall_eq_or_imp, hfirst, hrest]
    -- The first alarm brings the tag, takes it away, or leaves it alone.
    by_cases hm : e.2.metadata = a.metadata
    · have hother : ¬ e.2.metadata = alarmTag a suffix := hm ▸ Ne.symm alarmTag_ne_metadata
      simp only [eq_true hm, eq_false hother, true_or, or_true, true_and, false_imp_iff]
    by_cases ht : e.2.metadata = alarmTag a suffix
    · simp only [eq_false hm, eq_true ht, ne_eq, not_true, and_false, false_or, false_and,
        true_imp_iff]
      exact ⟨fun h => ⟨.inr h.1, h⟩, fun h => h.2⟩
    · simp only [eq_false hm, eq_false ht, ne_eq, not_false_iff, and_true, false_or,
        false_imp_iff, true_and]

end Descriptor

/-! ## The alarms beside the servers -/

namespace ResourceGraph

variable {g fragment merged : ResourceGraph} {v : String}

theorem exposes_iff : g.Exposes v ↔ (∃ name r, g.resource? name = some r ∧ r.Exposes v)
    ∨ ∃ e ∈ g.files, e.2.Exposes v := by
  constructor
  · rintro ⟨inner, hin, hexposed⟩
    rcases nestedIn_iff.1 hin with rfl | ⟨e, he, hin⟩
    · exact .inl hexposed
    · exact .inr ⟨e, he, inner, hin, hexposed⟩
  · rintro (hexposed | ⟨e, he, inner, hin, hexposed⟩)
    · exact ⟨g, .self g, hexposed⟩
    · exact ⟨inner, nestedIn_iff.2 (.inr ⟨e, he, hin⟩), hexposed⟩

theorem of_merged_eq_ok (h : g.merged fragment = .ok merged) :
    (∀ name, merged.resource? name = (fragment.resource? name).or (g.resource? name))
      ∧ (∀ name, fragment.contains name → ¬ g.contains name)
      ∧ merged.files = fragment.files.foldl (fun fs e => Entries.put e.1 e.2 fs) g.files := by
  by_cases hfree : ∀ n, fragment.contains n → ¬ g.contains n
  · rw [merged_of_free hfree] at h
    cases h
    exact ⟨fun _ => Table.get?_extend, hfree, rfl⟩
  · push Not at hfree
    obtain ⟨n, heq, -⟩ := merged_of_taken hfree
    rw [heq] at h
    cases h

/-- A fragment without servers has no part in what is exposed. -/
theorem merged_exposes (h : g.merged fragment = .ok merged) (hfiles : fragment.files = [])
    (hservers : ∀ name r, fragment.resource? name = some r → r.type ≠ serverType) :
    merged.Exposes v ↔ g.Exposes v := by
  obtain ⟨hresource, hfree, hmerged⟩ := of_merged_eq_ok h
  rw [exposes_iff, exposes_iff, hmerged, hfiles, List.foldl_nil]
  refine or_congr_left ⟨?_, ?_⟩
  · rintro ⟨name, r, hr, hexposed⟩
    rw [hresource, Option.or_eq_some_iff] at hr
    rcases hr with hr | ⟨-, hr⟩
    · exact absurd hexposed.1 (hservers name r hr)
    · exact ⟨name, r, hr, hexposed⟩
  · rintro ⟨name, r, hr, hexposed⟩
    refine ⟨name, r, ?_, hexposed⟩
    have hnone : fragment.resource? name = none := by
      by_contra hne
      obtain ⟨r', hr'⟩ := Option.ne_none_iff_exists'.1 hne
      exact hfree name (Table.contains_of_get? hr') (Table.contains_of_get? hr)
    rw [hresource, hnone, hr, Option.none_or]

/-- The alarm of that name matches servers by the tag. -/
def Watches (g : ResourceGraph) (name tag : String) : Prop :=
  ∃ r, g.resource? name = some r ∧ r.type = alarmType
    ∧ r.properties.get? "matching_metadata" = some (.single serverGroupKey (.string tag))

end ResourceGraph

theorem AlarmPolicy.alarm_matching (a : AlarmPolicy) (scaling : Option ScalingPolicy)
    (tag : String) : (a.alarm scaling tag).properties.get? "matching_metadata"
      = some (.single serverGroupKey (.string tag)) := by
  simp [alarm, Resource.set, Table.get?_put]

namespace Descriptor

variable {d : Descriptor} {base : ResourceGraph} {workloadId name tag : String}
  {s : AlarmSynthesis}

theorem of_alarms_eq_ok (h : d.alarms base workloadId = .ok s) :
    (d.alarmsByName.isEmpty = true ∧ s = ⟨false, .empty, base, .empty⟩)
      ∨ ∃ done, addAlarms d.scalingPolicies.head? (d.tagSuffix workloadId) d.alarmsByName.entries
            ⟨true, .empty, base, .empty⟩ = .ok done
          ∧ done.merged.merged done.fragment = .ok s.merged ∧ s.tags = done.tags
          ∧ s.fragment = done.fragment := by
  unfold alarms at h
  by_cases hempty : d.alarmsByName.isEmpty = true
  · rw [if_pos hempty] at h
    cases h
    exact .inl ⟨hempty, rfl⟩
  · rw [if_neg hempty, bind_eq_ok_iff] at h
    obtain ⟨done, hadd, h⟩ := h
    obtain ⟨merged, hmerge, h⟩ := bind_eq_ok_iff.1 h
    obtain ⟨-, -, h⟩ := bind_eq_ok_iff.1 h
    cases h
    exact .inr ⟨done, hadd, mapError_eq_ok_iff.1 hmerge, rfl, rfl⟩

theorem alarms_tags (h : d.alarms base workloadId = .ok s) :
    s.tags.get? name = (d.alarmsByName.get? name).map (alarmTag · (d.tagSuffix workloadId)) := by
  rcases of_alarms_eq_ok h with ⟨hempty, rfl⟩ | ⟨done, hadd, -, htags, -⟩
  · have hnone : d.alarmsByName.get? name = none := by
      rw [Table.get?, List.isEmpty_iff.1 hempty, Entries.get?]
    rw [hnone]
    rfl
  · rw [htags, (addAlarms_adds d.alarmsByName.ascending hadd).1, Table.get?_empty, Option.or_none]
    rfl

/-- The alarms alone are those of the policies by name. -/
theorem fragment_of_alarms (h : d.alarms base workloadId = .ok s) :
    s.fragment.resources = d.alarmsByName.map fun _ a =>
      a.alarm d.scalingPolicies.head? (alarmTag a (d.tagSuffix workloadId)) := by
  refine Table.ext_get? fun name => ?_
  rw [Table.get?_map]
  rcases of_alarms_eq_ok h with ⟨hempty, rfl⟩ | ⟨done, hadd, -, -, hfragment⟩
  · rw [Table.get?, Table.get?, List.isEmpty_iff.1 hempty]
    rfl
  · have hadded := (addAlarms_adds d.alarmsByName.ascending hadd).2.1 name
    rw [hfragment]
    exact hadded.trans (Option.or_none ..)

section Named

variable {a : AlarmPolicy} (h : d.alarms base workloadId = .ok s)
  (ha : d.alarmsByName.get? name = some a)
include h ha

theorem added_of_alarms : ∃ done,
    addAlarms d.scalingPolicies.head? (d.tagSuffix workloadId) d.alarmsByName.entries
        ⟨true, .empty, base, .empty⟩ = .ok done
      ∧ done.merged.merged done.fragment = .ok s.merged ∧ s.fragment = done.fragment := by
  rcases of_alarms_eq_ok h with ⟨hempty, -⟩ | ⟨done, hadd, hmerge, -, hfragment⟩
  · rw [Table.get?, List.isEmpty_iff.1 hempty] at ha
    cases ha
  · exact ⟨done, hadd, hmerge, hfragment⟩

/-- The alarm of a policy is among the alarms alone and in the graph with them. -/
theorem resource_of_alarms :
    ∀ g ∈ [s.fragment, s.merged], g.resource? name
      = some (a.alarm d.scalingPolicies.head? (alarmTag a (d.tagSuffix workloadId))) := by
  have hfragment : s.fragment.resource? name
      = some (a.alarm d.scalingPolicies.head? (alarmTag a (d.tagSuffix workloadId))) := by
    rw [ResourceGraph.resource?, fragment_of_alarms h, Table.get?_map, ha, Option.map_some]
  obtain ⟨done, -, hmerge, hdone⟩ := added_of_alarms h ha
  have hmerged := (ResourceGraph.of_merged_eq_ok hmerge).1 name
  rw [← hdone, hfragment, Option.some_or] at hmerged
  simp [hfragment, hmerged]

theorem alarms_watches : s.merged.Watches name (alarmTag a (d.tagSuffix workloadId)) :=
  ⟨_, resource_of_alarms h ha s.merged (by simp), rfl, a.alarm_matching _ _⟩

theorem alarms_exposes : s.merged.Exposes (alarmTag a (d.tagSuffix workloadId))
    ↔ ∀ b other, d.alarmsByName.get? b = some other →
      other.metadata = alarmTag a (d.tagSuffix workloadId) →
        ∃ c later, d.alarmsByName.get? c = some later ∧ later.metadata = a.metadata ∧ b < c := by
  obtain ⟨done, hadd, hmerge, -⟩ := added_of_alarms h ha
  obtain ⟨-, hfragment, hfiles⟩ := addAlarms_adds d.alarmsByName.ascending hadd
  have hservers : ∀ n r, done.fragment.resource? n = some r → r.type ≠ serverType := by
    intro n r hr
    rw [hfragment, Option.or_eq_some_iff] at hr
    rcases hr with hr | ⟨-, hr⟩
    · obtain ⟨policy, -, rfl⟩ := Option.map_eq_some_iff.1 hr
      exact (by decide : alarmType ≠ serverType)
    · cases hr
  have hthere : ∃ c ∈ d.alarmsByName.entries, c.2.metadata = a.metadata :=
    ⟨(name, a), Table.mem_entries.2 ha, rfl⟩
  rw [ResourceGraph.merged_exposes hmerge hfiles hservers,
    addAlarms_exposes d.alarmsByName.ascending hadd, and_iff_right (.inr hthere)]
  simp only [Prod.forall, Prod.exists, Table.mem_entries]

end Named

/-- An alarm watches by its own tag. Some server is left with that tag exactly if, of the alarms
that take the tag for their metadata value, none comes after the last alarm with this one's
metadata. -/
theorem alarms_exposed_iff (h : d.alarms base workloadId = .ok s)
    (ht : s.tags.get? name = some tag) :
    s.merged.Watches name tag
      ∧ ∃ a, d.alarmsByName.get? name = some a ∧ tag = alarmTag a (d.tagSuffix workloadId)
        ∧ (s.merged.Exposes tag ↔ ∀ b other, d.alarmsByName.get? b = some other →
          other.metadata = tag → ∃ c later, d.alarmsByName.get? c = some later
            ∧ later.metadata = a.metadata ∧ b < c) := by
  rw [alarms_tags h] at ht
  obtain ⟨a, ha, rfl⟩ := Option.map_eq_some_iff.1 ht
  exact ⟨alarms_watches h ha, a, ha, rfl, alarms_exposes h ha⟩

/-- An alarm on the load of the servers that expose the value. -/
def loadAlarm (name metadata : String) : AlarmPolicy :=
  ⟨name, metadata, "cpu_util", "gt", 600, 1, "avg", Binary64.ofInt 50, []⟩

/-- Two alarms, of which the second has the tag of the first for its metadata value. -/
def chainedAlarms : Descriptor :=
  ((named "vnf").withPolicy (.scaling ⟨"SP1", ["VDU1"], 1, 3, 1, 1, 60⟩)
    |>.withPolicy (.alarm (loadAlarm "A1" "VDU1"))
    |>.withPolicy (.alarm (loadAlarm "A2" "VDU1-SP1_group"))
    |>.withComponent "VDU1" (.compute .blank)
    |>.withComponent "VDU2" (.compute .blank))

/-- A server for each of the two alarms. -/
def exposingServers : ResourceGraph :=
  let server (value : String) : Resource :=
    (Resource.new serverType).set "metadata" (.single "metering.vnf" (.string value))
  { ResourceGraph.empty with
    resources := .ofList [("VDU1", server "VDU1"), ("VDU2", server "VDU1-SP1_group")] }

theorem chainedAlarms_ok : ∃ s, chainedAlarms.alarms exposingServers "w" = .ok s :=
  exists_ok_of_toBool (by decide +kernel)

theorem chainedAlarms_get? {name : String} : chainedAlarms.alarmsByName.get? name
    = if name = "A1" then some (loadAlarm "A1" "VDU1")
      else if name = "A2" then some (loadAlarm "A2" "VDU1-SP1_group") else none := rfl

theorem chainedAlarms_tag_kept :
    ∃ s, chainedAlarms.alarms exposingServers "w" = .ok s
      ∧ s.tags.get? "A2" = some "VDU1-SP1_group-SP1_group"
      ∧ s.merged.Watches "A2" "VDU1-SP1_group-SP1_group"
      ∧ s.merged.Exposes "VDU1-SP1_group-SP1_group" := by
  obtain ⟨s, hs⟩ := chainedAlarms_ok
  have ht : s.tags.get? "A2" = some "VDU1-SP1_group-SP1_group" := by
    rw [alarms_tags hs]
    rfl
  obtain ⟨hwatches, a, -, -, hexposed⟩ := alarms_exposed_iff hs ht
  refine ⟨s, hs, ht, hwatches, hexposed.2 fun b other hb hm => ?_⟩
  rw [chainedAlarms_get?] at hb
  split_ifs at hb <;> cases hb
  · exact absurd hm (by decide)
  · exact absurd hm (by decide)

/-- The second alarm takes all servers of the first. -/
theorem chainedAlarms_tag_lost :
    ∃ s, chainedAlarms.alarms exposingServers "w" = .ok s
      ∧ s.tags.get? "A1" = some "VDU1-SP1_group"
      ∧ s.merged.Watches "A1" "VDU1-SP1_group"
      ∧ ¬ s.merged.Exposes "VDU1-SP1_group" := by
  obtain ⟨s, hs⟩ := chainedAlarms_ok
  have ha : chainedAlarms.alarmsByName.get? "A1" = some (loadAlarm "A1" "VDU1") := rfl
  have ht : s.tags.get? "A1" = some "VDU1-SP1_group" := by
    rw [alarms_tags hs]
    rfl
  refine ⟨s, hs, ht, alarms_watches hs ha, fun hexposed => ?_⟩
  obtain ⟨c, later, hc, hm, hlt⟩ := (alarms_exposes hs ha).1 hexposed "A2"
    (loadAlarm "A2" "VDU1-SP1_group") rfl rfl
  rw [chainedAlarms_get?] at hc
  split_ifs at hc with h1 <;> cases hc
  · subst h1
    exact absurd hlt (by decide)
  · exact absurd hm (by decide)

end Descriptor

end Provision
