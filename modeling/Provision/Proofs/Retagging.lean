import Mathlib.Data.List.Forall2
import Provision.Proofs.Templates

/-!
# What alarms change and how they can fail

Adding alarms leaves everything in a graph, at every depth, as it is, except that texts in the
metadata of servers may become tags of the alarms; beside that the graph has the alarms
(`alarms_frame`). So no reference is lost or gained but those of the alarms themselves, and these
lead into the graph. A cycle would have to lead back to an alarm, to which nothing refers
(`no_cycle_of_sources`). Of a valid graph that has what its alarms signal the alarms can thus fail
only for want of a server to watch, or for a name that is taken (`faults_of_alarms`).
-/

namespace Provision

/-- Once every edge of `r` that is none of `s` starts where no edge of `r` ends, a cycle of `r` is
one of `s`. -/
theorem no_cycle_of_sources {α : Type} {r s : α → α → Prop}
    (h : ∀ a b, r a b → s a b ∨ ∀ c, ¬ r c a) (hs : ∀ a, ¬ Relation.TransGen s a a) (a : α) :
    ¬ Relation.TransGen r a a := by
  rw [← Relation.transGen_swap]
  refine no_cycle_of_sinks (s := Function.swap s) (fun a b hab => h b a hab) (fun a => ?_) a
  rw [Relation.transGen_swap]
  exact hs a

/-! ## Retagged metadata -/

/-- The value is as it was, or was a text and has become one of the tags. -/
def Property.Retagged (Tag : String → Prop) (p p' : Property) : Prop :=
  p' = p ∨ ∃ text tag, p = .string text ∧ Tag tag ∧ p' = .string tag

/-- Entry by entry, the keys are the same and the values are retagged. -/
abbrev RetaggedEntries (Tag : String → Prop) : (es es' : List (String × Property)) → Prop :=
  List.Forall₂ fun e e' => e'.1 = e.1 ∧ e.2.Retagged Tag e'.2

/-- The resource is as it was, except that texts in the metadata of a server may have become tags;
the keys are the same. -/
structure Resource.Retagged (Tag : String → Prop) (r r' : Resource) : Prop where
  type : r'.type = r.type
  others : ∀ key, key ≠ "metadata" → r'.properties.get? key = r.properties.get? key
  metadata : r'.properties.get? "metadata" = r.properties.get? "metadata"
    ∨ r.type = serverType ∧ ∃ es es', r.properties.get? "metadata" = some (.map es)
      ∧ r'.properties.get? "metadata" = some (.map es')
      ∧ RetaggedEntries Tag es es'

/-- The graph is as it was, except for retagged metadata, at every depth of nesting. -/
inductive ResourceGraph.Retagged (Tag : String → Prop) : ResourceGraph → ResourceGraph → Prop
  | intro {g g' : ResourceGraph} (description : g'.description = g.description)
      (resources : ∀ name,
        Option.Rel (Resource.Retagged Tag) (g.resource? name) (g'.resource? name))
      (references : ∀ source target, g'.Edge source target ↔ g.Edge source target)
      (outputs : g'.outputs = g.outputs)
      (fileNames : Entries.names g'.files = Entries.names g.files)
      (files : List.Forall₂ (Retagged Tag) (g.files.map Prod.snd) (g'.files.map Prod.snd)) :
      Retagged Tag g g'

variable {Tag : String → Prop}

namespace Property.Retagged

variable {p p' p'' : Property}

theorem refl (p : Property) : p.Retagged Tag p := .inl rfl

theorem trans (h : p.Retagged Tag p') (h' : p'.Retagged Tag p'') : p.Retagged Tag p'' := by
  rcases h' with rfl | ⟨text, tag, rfl, htag, rfl⟩
  · exact h
  · rcases h with h | ⟨text', -, rfl, -, -⟩
    · exact .inr ⟨text, tag, h.symm, htag, rfl⟩
    · exact .inr ⟨text', tag, rfl, htag, rfl⟩

/-- No text refers to anything. -/
theorem refersTo_iff {name : String} (h : p.Retagged Tag p') :
    p'.RefersTo name ↔ p.RefersTo name := by
  rcases h with rfl | ⟨text, tag, rfl, -, rfl⟩
  · exact Iff.rfl
  · exact iff_of_false not_refersTo_string not_refersTo_string

end Property.Retagged

theorem RetaggedEntries.trans {es es' es'' : List (String × Property)}
    (h : RetaggedEntries Tag es es') (h' : RetaggedEntries Tag es' es'') :
    RetaggedEntries Tag es es'' := by
  induction h generalizing es'' with
  | nil => exact h'
  | cons he _ ih =>
    cases h' with
    | cons he' h' => exact .cons ⟨he'.1.trans he.1, he.2.trans he'.2⟩ (ih h')

theorem RetaggedEntries.refersTo_iff {es es' : List (String × Property)} {name : String}
    (h : RetaggedEntries Tag es es') :
    Property.RefersTo (.map es') name ↔ Property.RefersTo (.map es) name := by
  rw [Property.refersTo_map, Property.refersTo_map]
  induction h with
  | nil => exact Iff.rfl
  | cons he _ ih => simp only [List.mem_cons, exists_eq_or_imp, ih, he.2.refersTo_iff]

namespace Resource.Retagged

variable {r r' r'' : Resource}

theorem refl (r : Resource) : r.Retagged Tag r := ⟨rfl, fun _ _ => rfl, .inl rfl⟩

theorem trans (h : r.Retagged Tag r') (h' : r'.Retagged Tag r'') : r.Retagged Tag r'' := by
  refine ⟨h'.type.trans h.type, fun key hk => (h'.others key hk).trans (h.others key hk), ?_⟩
  rcases h'.metadata with hsame' | ⟨htype', es', es'', hes', hes'', hentries'⟩
  · rw [hsame']
    exact h.metadata
  · rcases h.metadata with hsame | ⟨htype, es, es₁, hes, hes₁, hentries⟩
    · exact .inr ⟨h.type.symm.trans htype', es', es'', hsame.symm.trans hes', hes'', hentries'⟩
    · cases hes'.symm.trans hes₁
      exact .inr ⟨htype, es, es'', hes, hes'', RetaggedEntries.trans hentries hentries'⟩

theorem refersTo_iff {name : String} (h : r.Retagged Tag r') :
    r'.RefersTo name ↔ r.RefersTo name := by
  have hkey (key : String) : (∃ p, r'.properties.get? key = some p ∧ p.RefersTo name)
      ↔ ∃ p, r.properties.get? key = some p ∧ p.RefersTo name := by
    by_cases hk : key = "metadata"
    · subst hk
      rcases h.metadata with hsame | ⟨-, es, es', hes, hes', hentries⟩
      · rw [hsame]
      · simp only [hes, hes', Option.some.injEq, exists_eq_left']
        exact RetaggedEntries.refersTo_iff hentries
    · rw [h.others key hk]
  unfold Resource.RefersTo
  exact exists_congr hkey

end Resource.Retagged

/-! ## Retagging a graph -/

namespace Retag

variable {t : Retag} {ts : List Retag} {r : Resource} {g : ResourceGraph}

theorem retagged_resource (ht : Tag t.tag) : r.Retagged Tag (t.resource r) := by
  refine ⟨resource_type, fun _ hk => resource_get? hk, ?_⟩
  by_cases hzero : t.matchesIn r = 0
  · rw [resource, if_pos hzero]
    exact .inl rfl
  -- Something is counted, so the resource is a server with metadata.
  obtain ⟨e, he, -⟩ := List.countP_pos_iff.1 (Nat.pos_of_ne_zero hzero)
  unfold metadataOf at he
  split_ifs at he with htype
  · split at he
    · rename_i es hes
      have hmetadata : metadataOf r = es := by rw [metadataOf, if_pos htype, hes]
      refine .inr ⟨htype, es,
        es.map fun e => (e.1, if t.applies e.2 then .string t.tag else e.2), hes, ?_, ?_⟩
      · rw [resource, if_neg hzero, Resource.set, Table.get?_put, if_pos rfl, hmetadata]
      · rw [RetaggedEntries, List.forall₂_map_right_iff, List.forall₂_same]
        refine fun e _ => ⟨rfl, ?_⟩
        split_ifs with happ
        · rcases applies_iff.1 happ with h | h
          · exact .inr ⟨_, _, h, ht, rfl⟩
          · exact .inr ⟨_, _, h, ht, rfl⟩
        · exact .refl _
    · cases he
  · cases he

theorem retagged_each (h : ∀ t ∈ ts, Tag t.tag) : r.Retagged Tag (each ts r) := by
  induction ts generalizing r with
  | nil => exact .refl r
  | cons t ts ih =>
    obtain ⟨ht, hts⟩ := List.forall_mem_cons.1 h
    exact (retagged_resource ht).trans (ih hts)

theorem all_edge {source target : String} :
    (all ts g).Edge source target ↔ g.Edge source target := by
  unfold ResourceGraph.Edge
  rw [all_resource?]
  rcases g.resource? source with _ | r
  · simp
  · have hr : r.Retagged (fun _ => True) (each ts r) := retagged_each fun _ _ => trivial
    simp [hr.refersTo_iff]

theorem all_contains {name : String} : (all ts g).contains name = g.contains name := by
  have hsome (g : ResourceGraph) : g.contains name = (g.resource? name).isSome := rfl
  rw [hsome, hsome, all_resource?, Option.isSome_map]

theorem all_description : (all ts g).description = g.description := by
  induction ts generalizing g with
  | nil => rfl
  | cons t ts ih =>
    rw [all, List.foldl_cons, ← all, ih, graph_eq]

mutual

/-- Retagging retags, at every depth of nesting. -/
theorem retagged_all (h : ∀ t ∈ ts, Tag t.tag) :
    ∀ g : ResourceGraph, g.Retagged Tag (all ts g)
  | ⟨description, resources, outputs, files⟩ => by
    have hfiles := retagged_files h files
    refine .intro all_description (fun name => ?_) (fun _ _ => all_edge) all_outputs ?_ ?_
    · rw [all_resource?]
      rcases ResourceGraph.resource? _ name with _ | r
      · exact .none
      · exact .some (retagged_each h)
    · rw [all_files]
      exact List.map_map
    · rw [all_files, List.map_map]
      exact hfiles

theorem retagged_files (h : ∀ t ∈ ts, Tag t.tag) : ∀ files : List (String × ResourceGraph),
    List.Forall₂ (ResourceGraph.Retagged Tag) (files.map Prod.snd) (files.map (all ts ·.2))
  | [] => .nil
  | (_, g) :: files => .cons (retagged_all h g) (retagged_files h files)

end

end Retag

/-! ## What stays valid -/

namespace Retag

variable {ts : List Retag} {g inner : ResourceGraph}

theorem coherent_all (hg : g.Coherent) : (all ts g).Coherent where
  references source target h := by
    rw [all_contains]
    exact hg.references source target (all_edge.1 h)
  outputs name o h := by
    rw [all_outputs] at h
    rw [all_contains]
    exact hg.outputs name o h
  acyclic name h :=
    hg.acyclic name (Relation.TransGen.mono (fun _ _ => all_edge.1) name name h)

theorem nestedIn_all : inner.NestedIn (all ts g) ↔ ∃ nested : ResourceGraph, nested.NestedIn g
    ∧ all ts nested = inner := by
  induction ts generalizing g with
  | nil => exact ⟨fun h => ⟨inner, h, rfl⟩, fun ⟨_, h, heq⟩ => heq ▸ h⟩
  | cons t ts ih =>
    rw [all, List.foldl_cons, ← all, ih]
    constructor
    · rintro ⟨nested, hn, rfl⟩
      obtain ⟨nested', hn', rfl⟩ := nestedIn_graph.1 hn
      exact ⟨nested', hn', rfl⟩
    · rintro ⟨nested, hn, rfl⟩
      exact ⟨t.graph nested, nestedIn_graph.2 ⟨nested, hn, rfl⟩, rfl⟩

theorem validate_all (hg : g.validate = .ok ()) : (all ts g).validate = .ok () := by
  rw [ResourceGraph.validate_eq_ok_iff] at hg ⊢
  intro inner hin
  obtain ⟨nested, hn, rfl⟩ := nestedIn_all.1 hin
  exact coherent_all (hg nested hn)

end Retag

namespace ResourceGraph

variable {g fragment merged : ResourceGraph}

/-- What a fragment adds refers into the graph alone, and nothing refers to what it adds. -/
theorem merged_coherent (h : g.merged fragment = .ok merged) (hg : g.Coherent)
    (hout : fragment.outputs = .empty)
    (hinto : ∀ source target, fragment.Edge source target → g.contains target) :
    merged.Coherent := by
  obtain ⟨hresource, hfree, -⟩ := of_merged_eq_ok h
  have houtputs : merged.outputs = g.outputs := by
    rw [merged_of_free hfree] at h
    cases h
    rw [hout]
    rfl
  have hcontains (name : String) (hn : g.contains name) : merged.contains name := by
    obtain ⟨r, hr⟩ := Table.contains_iff.1 hn
    change (merged.resource? name).isSome = true
    rw [hresource, show g.resource? name = some r from hr, Option.isSome_or]
    simp
  have hedge (source target : String) (hst : merged.Edge source target) :
      fragment.Edge source target ∨ g.Edge source target := by
    obtain ⟨r, hr, ht⟩ := hst
    rw [hresource, Option.or_eq_some_iff] at hr
    rcases hr with hr | ⟨-, hr⟩
    · exact .inl ⟨r, hr, ht⟩
    · exact .inr ⟨r, hr, ht⟩
  have htarget (source target : String) (hst : merged.Edge source target) : g.contains target := by
    rcases hedge source target hst with hst | hst
    · exact hinto source target hst
    · exact hg.references source target hst
  refine ⟨fun source target hst => hcontains target (htarget source target hst),
    fun name o ho => ?_, no_cycle_of_sources (s := g.Edge) (fun source target hst => ?_) hg.acyclic⟩
  · rw [houtputs] at ho
    exact hcontains o.resource (hg.outputs name o ho)
  · rcases hedge source target hst with hst | hst
    · refine .inr fun other hos => hfree source ?_ (htarget other source hos)
      exact contains_of_edge hst
    · exact .inl hst

theorem validate_merged (h : g.merged fragment = .ok merged) (hg : g.validate = .ok ())
    (hout : fragment.outputs = .empty) (hfiles : fragment.files = [])
    (hinto : ∀ source target, fragment.Edge source target → g.contains target) :
    merged.validate = .ok () := by
  rw [validate_eq_ok_iff] at hg ⊢
  intro inner hin
  rcases nestedIn_iff.1 hin with rfl | hin
  · exact merged_coherent h (hg g (.self g)) hout hinto
  · rw [(of_merged_eq_ok h).2.2, hfiles, List.foldl_nil] at hin
    exact hg inner (nestedIn_iff.2 (.inr hin))

end ResourceGraph

/-! ## The alarms -/

theorem Property.not_refersTo_float {x : Binary64} {t : String} : ¬ RefersTo (.float x) t := by
  rintro ⟨⟩

theorem Property.not_refersTo_ofInt {i : Int} {t : String} : ¬ (ofInt i).RefersTo t := by
  unfold ofInt
  split_ifs
  · exact not_refersTo_int
  · exact not_refersTo_float

/-- An alarm refers to nothing but the signals of the scaling policy that it names. -/
theorem AlarmPolicy.signal_of_refersTo {a : AlarmPolicy} {scaling : Option ScalingPolicy}
    {tag t : String} (h : (a.alarm scaling tag).RefersTo t) :
    ∃ p, scaling = some p ∧ p.name ∈ a.actions ∧ t = signalName p.name (.ofComparison a.comparison)
    := by
  rcases Resource.refersTo_of_set h with h | h
  · obtain ⟨p, hp, ht⟩ := Property.refersTo_list.1 h
    obtain ⟨action, hmem, haction⟩ := List.mem_filterMap.1 hp
    unfold action? at haction
    split_ifs at haction with hnames
    · cases haction
      cases ht
      rcases scaling with _ | p
      · cases hnames
      · obtain rfl : p.name = action := by simpa using hnames
        exact ⟨p, rfl, hmem, rfl⟩
    · cases haction
      exact absurd ht Property.not_refersTo_string
  rcases Resource.refersTo_of_set h with h | h
  · obtain ⟨e, he, ht⟩ := Property.refersTo_map.1 h
    obtain rfl := List.mem_singleton.1 he
    exact absurd ht Property.not_refersTo_string
  rcases Resource.refersTo_of_set h with h | h
  · exact absurd h Property.not_refersTo_float
  rcases Resource.refersTo_of_set h with h | h
  · exact absurd h Property.not_refersTo_string
  rcases Resource.refersTo_of_set h with h | h
  · exact absurd h Property.not_refersTo_int
  rcases Resource.refersTo_of_set h with h | h
  · exact absurd h Property.not_refersTo_ofInt
  rcases Resource.refersTo_of_set h with h | h
  · exact absurd h Property.not_refersTo_string
  rcases Resource.refersTo_of_set h with h | h
  · exact absurd h Property.not_refersTo_string
  · exact absurd h Resource.not_refersTo_new

namespace Descriptor

variable {d : Descriptor} {base : ResourceGraph} {workloadId suffix : String} {s : AlarmSynthesis}
variable {scaling : Option ScalingPolicy} {named : List (String × AlarmPolicy)}
variable {done : AlarmSynthesis} {fault : Fault}

theorem mem_alarmPolicies {name : String} {a : AlarmPolicy}
    (h : d.alarmsByName.get? name = some a) : a ∈ d.alarmPolicies ∧ a.name = name := by
  obtain ⟨a, ha, heq⟩ := List.mem_map.1 (Entries.mem_of_mem_ofList (Table.mem_entries.2 h))
  cases heq
  exact ⟨ha, rfl⟩

theorem of_addAlarms_eq_error (h : addAlarms scaling suffix named done = .error fault) :
    ∃ e ∈ named, fault = .metadataNotMatched e.1 e.2.metadata := by
  induction named generalizing done with
  | nil => cases h
  | cons e named ih =>
    obtain ⟨name, a⟩ := e
    simp only [addAlarms] at h
    split_ifs at h
    · cases h
      exact ⟨(name, a), List.mem_cons_self, rfl⟩
    · obtain ⟨e, he, hfault⟩ := ih h
      exact ⟨e, List.mem_cons_of_mem _ he, hfault⟩

/-- The alarms fail in one of three steps. -/
theorem of_alarms_eq_error (h : d.alarms base workloadId = .error fault) :
    (∃ a ∈ d.alarmPolicies, fault = .metadataNotMatched a.name a.metadata)
      ∨ ∃ done, addAlarms d.scalingPolicies.head? (d.tagSuffix workloadId) d.alarmsByName.entries
            ⟨true, .empty, base, .empty⟩ = .ok done
          ∧ ((∃ flaw, done.merged.merged done.fragment = .error flaw ∧ fault = .invalidGraph flaw)
            ∨ ∃ merged, done.merged.merged done.fragment = .ok merged
              ∧ merged.validate ≠ .ok ()) := by
  unfold alarms at h
  dsimp only at h
  split_ifs at h
  · cases h
  rcases bind_eq_error_iff.1 h with hadd | ⟨done, hadd, h⟩
  · obtain ⟨⟨name, a⟩, he, hfault⟩ := of_addAlarms_eq_error hadd
    obtain ⟨ha, rfl⟩ := mem_alarmPolicies (Table.mem_entries.1 he)
    exact .inl ⟨a, ha, hfault⟩
  refine .inr ⟨done, hadd, ?_⟩
  rcases bind_eq_error_iff.1 h with hmerge | ⟨merged, hmerge, h⟩
  · obtain ⟨flaw, hflaw, rfl⟩ := mapError_eq_error_iff.1 hmerge
    exact .inl ⟨flaw, hflaw, rfl⟩
  · refine .inr ⟨merged, mapError_eq_ok_iff.1 hmerge, fun hvalid => ?_⟩
    rw [hvalid] at h
    cases h

/-- What the alarms are before any of them is merged: the graph retagged, and a resource for each
of them. -/
theorem added_alarms
    (h : addAlarms d.scalingPolicies.head? (d.tagSuffix workloadId) d.alarmsByName.entries
      ⟨true, .empty, base, .empty⟩ = .ok done) :
    done.merged = Retag.all (d.alarmsByName.entries.map fun e =>
        ⟨e.2.metadata, alarmTag e.2 (d.tagSuffix workloadId)⟩) base
      ∧ done.fragment.outputs = .empty ∧ done.fragment.files = []
      ∧ ∀ name r, done.fragment.resource? name = some r → ∃ a ∈ d.alarmPolicies, a.name = name
        ∧ r = a.alarm d.scalingPolicies.head? (alarmTag a (d.tagSuffix workloadId)) := by
  obtain ⟨hmerged, hout⟩ := addAlarms_merged h
  obtain ⟨-, hfragment, hfiles⟩ := addAlarms_adds d.alarmsByName.ascending h
  refine ⟨hmerged, hout, hfiles, fun name r hr => ?_⟩
  rw [hfragment, Option.or_eq_some_iff] at hr
  rcases hr with hr | ⟨-, hr⟩
  · obtain ⟨a, ha, rfl⟩ := Option.map_eq_some_iff.1 hr
    obtain ⟨ha, hname⟩ := mem_alarmPolicies (d := d) ha
    exact ⟨a, ha, hname, rfl⟩
  · cases hr

/-- The graph with the alarms is the graph retagged, with the alarms beside what was there. -/
theorem alarms_frame (h : d.alarms base workloadId = .ok s) :
    ∃ retagged, base.Retagged (fun tag => ∃ name, s.tags.get? name = some tag) retagged
      ∧ s.merged = { retagged with resources := retagged.resources.extend s.fragment.resources }
      ∧ ∀ name r, s.fragment.resource? name = some r →
        r.type = alarmType ∧ base.contains name = false := by
  have htags (name : String) : s.tags.get? name
      = (d.alarmsByName.get? name).map (alarmTag · (d.tagSuffix workloadId)) := alarms_tags h
  rcases of_alarms_eq_ok h with ⟨-, rfl⟩ | ⟨done, hadd, hmerge, -, hfragment⟩
  · refine ⟨Retag.all [] base, Retag.retagged_all (fun t ht => by cases ht) base, ?_,
      fun _ _ hr => by cases hr⟩
    cases base
    rfl
  obtain ⟨hretagged, hout, hfiles, halarms⟩ := added_alarms hadd
  obtain ⟨-, hfree, -⟩ := ResourceGraph.of_merged_eq_ok hmerge
  have hbase : base.Retagged (fun tag => ∃ name, s.tags.get? name = some tag) done.merged := by
    rw [hretagged]
    refine Retag.retagged_all (fun t ht => ?_) base
    obtain ⟨e, he, rfl⟩ := List.mem_map.1 ht
    exact ⟨e.1, by rw [htags, Table.mem_entries.1 he]; rfl⟩
  refine ⟨done.merged, hbase, ?_, fun name r hr => ?_⟩
  · rw [ResourceGraph.merged_of_free hfree, hout, hfiles] at hmerge
    rw [hfragment]
    exact (Except.ok.inj hmerge).symm
  · rw [hfragment] at hr
    obtain ⟨a, -, -, rfl⟩ := halarms name r hr
    refine ⟨rfl, Bool.eq_false_iff.2 fun hn => hfree name (Table.contains_of_get? hr) ?_⟩
    rwa [hretagged, Retag.all_contains]

/-- A valid graph that has the signals the alarms name is still valid with the alarms. -/
theorem faults_of_alarms (hbase : base.validate = .ok ())
    (hsignals : ∀ p, d.scalingPolicies.head? = some p → ∀ a ∈ d.alarmPolicies, p.name ∈ a.actions →
      ∀ direction, base.contains (signalName p.name direction) = true)
    (h : d.alarms base workloadId = .error fault) :
    (∃ a ∈ d.alarmPolicies, fault = .metadataNotMatched a.name a.metadata)
      ∨ ∃ a ∈ d.alarmPolicies, base.contains a.name = true
        ∧ fault = .invalidGraph (.duplicate a.name) := by
  refine (of_alarms_eq_error h).imp_right ?_
  rintro ⟨done, hadd, hfail⟩
  obtain ⟨hretagged, hout, hfiles, halarms⟩ := added_alarms hadd
  have hinto : ∀ source target, done.fragment.Edge source target →
      done.merged.contains target := by
    rintro source target ⟨r, hr, ht⟩
    obtain ⟨a, ha, -, rfl⟩ := halarms source r hr
    obtain ⟨p, hp, hnames, rfl⟩ := AlarmPolicy.signal_of_refersTo ht
    rw [hretagged, Retag.all_contains]
    exact hsignals p hp a ha hnames _
  rcases hfail with ⟨flaw, hmerge, rfl⟩ | ⟨merged, hmerge, hinvalid⟩
  · have htaken : ∃ n, done.fragment.contains n ∧ done.merged.contains n := by
      by_contra hfree
      push Not at hfree
      rw [ResourceGraph.merged_of_free hfree] at hmerge
      cases hmerge
    obtain ⟨n, heq, hn, hbasen⟩ := ResourceGraph.merged_of_taken htaken
    rw [heq] at hmerge
    cases hmerge
    obtain ⟨r, hr⟩ := Table.contains_iff.1 hn
    obtain ⟨a, ha, rfl, -⟩ := halarms n r hr
    rw [hretagged, Retag.all_contains] at hbasen
    exact ⟨a, ha, hbasen, rfl⟩
  · refine absurd (ResourceGraph.validate_merged hmerge ?_ hout hfiles hinto) hinvalid
    rw [hretagged]
    exact Retag.validate_all hbase

/-- Alarms change nothing in a graph but metadata of its servers, where texts become tags of the
alarms, and add nothing but the alarms, under names that were free. Of a valid graph in which every
alarm finds the signals of the scaling policy that it names, they can fail only for an alarm that
has no server to watch or whose name is taken. -/
theorem alarms_framed (d : Descriptor) (base : ResourceGraph) (workloadId : String) :
    (∀ s, d.alarms base workloadId = .ok s →
      ∃ retagged, base.Retagged (fun tag => ∃ name, s.tags.get? name = some tag) retagged
        ∧ s.merged = { retagged with resources := retagged.resources.extend s.fragment.resources }
        ∧ ∀ name r, s.fragment.resource? name = some r →
          r.type = alarmType ∧ base.contains name = false)
    ∧ (base.validate = .ok () →
      (∀ p, d.scalingPolicies.head? = some p → ∀ a ∈ d.alarmPolicies, p.name ∈ a.actions →
        ∀ direction, base.contains (signalName p.name direction) = true) →
      ∀ fault, d.alarms base workloadId = .error fault →
        (∃ a ∈ d.alarmPolicies, fault = .metadataNotMatched a.name a.metadata)
        ∨ ∃ a ∈ d.alarmPolicies, base.contains a.name = true
          ∧ fault = .invalidGraph (.duplicate a.name)) :=
  ⟨fun _ => alarms_frame, fun hbase hsignals _ => faults_of_alarms hbase hsignals⟩

end Descriptor

end Provision
