import Provision.Proofs.Merging
import Provision.Proofs.Ownership

/-!
# What becomes of a graph whose targets form a group

The move of the members can fail for three reasons, looked for in this order: a target is missing,
what is owned is referred to from outside, or one of the group's own names is taken by a resource
that stays (`withScaling_of_missing`, `withScaling_of_shared`, `withScaling_of_taken`). Otherwise
the outcome is `regrouped`, if that passes validation (`withScaling_of_free`).
-/

namespace Provision

/-! ## The fragment -/

namespace Resource

theorem not_refersTo_new {type t : String} : ¬ (new type).RefersTo t := by
  rintro ⟨key, p, hp, -⟩
  simp [new] at hp

theorem refersTo_of_set {r : Resource} {name t : String} {value : Property}
    (h : (r.set name value).RefersTo t) : value.RefersTo t ∨ r.RefersTo t := by
  obtain ⟨key, p, hp, ht⟩ := h
  simp only [set, Table.get?_put] at hp
  split at hp
  · cases hp
    exact .inl ht
  · exact .inr ⟨key, p, hp, ht⟩

end Resource

namespace Property

theorem not_refersTo_int {i : Int} {t : String} : ¬ RefersTo (.int i) t := by rintro ⟨⟩

theorem not_refersTo_string {s t : String} : ¬ RefersTo (.string s) t := by rintro ⟨⟩

end Property

namespace ScalingPolicy

variable (p : ScalingPolicy)

/-- The names of the group and its two signals. -/
def resourceNames : List String :=
  [groupName p.name, signalName p.name .grow, signalName p.name .shrink]

theorem resourceNames_nodup : p.resourceNames.Nodup := by
  simp [resourceNames, groupName, signalName, ScaleDirection.word, String.append_assoc]

theorem fragment_resource? {n : String} :
    p.fragment.resource? n = if n = signalName p.name .shrink then some (p.signal .shrink)
      else if n = signalName p.name .grow then some (p.signal .grow)
      else if n = groupName p.name then some p.group else none := by
  simp [fragment, ResourceGraph.resource?, Table.get?, Table.ofList, Entries.ofList,
    Entries.get?_put, Entries.get?]

theorem fragment_contains {n : String} : p.fragment.contains n ↔ n ∈ p.resourceNames := by
  have h : p.fragment.contains n = (p.fragment.resource? n).isSome := rfl
  rw [h, fragment_resource?]
  simp only [resourceNames, List.mem_cons, List.not_mem_nil, or_false]
  split_ifs <;> simp_all

theorem not_refersTo_group {t : String} : ¬ p.group.RefersTo t := by
  intro h
  rcases Resource.refersTo_of_set h with h | h
  · obtain ⟨e, he, h⟩ := Property.refersTo_map.1 h
    simp only [List.mem_singleton] at he
    subst he
    exact Property.not_refersTo_string h
  · repeat
      rcases Resource.refersTo_of_set h with h | h
      · exact Property.not_refersTo_int h
    exact Resource.not_refersTo_new h

theorem eq_group_of_refersTo_signal {direction : ScaleDirection} {t : String}
    (h : (p.signal direction).RefersTo t) : t = groupName p.name := by
  rcases Resource.refersTo_of_set h with h | h
  · exact absurd h Property.not_refersTo_int
  rcases Resource.refersTo_of_set h with h | h
  · cases h
    rfl
  rcases Resource.refersTo_of_set h with h | h
  · exact absurd h Property.not_refersTo_int
  rcases Resource.refersTo_of_set h with h | h
  · exact absurd h Property.not_refersTo_string
  · exact absurd h Resource.not_refersTo_new

/-- The signals refer to the group and nothing else in the fragment refers to anything. -/
theorem fragment_edge {n t : String} (h : p.fragment.Edge n t) :
    n ≠ groupName p.name ∧ t = groupName p.name := by
  obtain ⟨r, hr, ht⟩ := h
  have hd := p.resourceNames_nodup
  simp only [resourceNames, List.nodup_cons, List.mem_cons, List.not_mem_nil, or_false,
    not_or] at hd
  rw [fragment_resource?] at hr
  split_ifs at hr with hs hg hgroup
  · cases hr
    exact ⟨fun hn => hd.1.2 (hn.symm.trans hs), p.eq_group_of_refersTo_signal ht⟩
  · cases hr
    exact ⟨fun hn => hd.1.1 (hn.symm.trans hg), p.eq_group_of_refersTo_signal ht⟩
  · cases hr
    exact absurd ht p.not_refersTo_group

end ScalingPolicy

namespace ResourceGraph

variable {g : ResourceGraph}

/-! ## The outcomes -/

/-- The graph with the group in place of its members, which are in a template of their own. -/
def regrouped (g : ResourceGraph) (p : ScalingPolicy) : ResourceGraph :=
  let rest := g.without (g.owned p.targets)
  { rest with
    resources := rest.resources.extend p.fragment.resources
    files := Entries.put (memberFile p.name) (g.members (g.owned p.targets)) g.files }

/-- What the targets own is referred to from within only. -/
def Unshared (g : ResourceGraph) (targets : List String) : Prop :=
  ∀ n t, g.Edge n t → g.Owns targets t → g.Owns targets n

/-- The names of the group and its signals are free once the members have moved. -/
def NamesFree (g : ResourceGraph) (p : ScalingPolicy) : Prop :=
  ∀ n ∈ p.resourceNames, g.contains n → g.Owns p.targets n

theorem sharedReference?_eq_none {owned : List String} :
    g.sharedReference? owned = none ↔ ∀ n t, g.Edge n t → t ∈ owned → n ∈ owned := by
  unfold sharedReference?
  rw [List.findSome?_eq_none_iff]
  constructor
  · rintro h n t ⟨r, hr, ht⟩ hown
    have hn := h (n, r) (Table.mem_entries.2 hr)
    by_contra hout
    simp only [List.contains_iff_mem, hout, if_false, Option.map_eq_none_iff,
      List.find?_eq_none] at hn
    exact hn t (Resource.mem_references.2 ht) hown
  · rintro h ⟨n, r⟩ he
    simp only [List.contains_iff_mem]
    split_ifs with hout
    · rfl
    · simp only [Option.map_eq_none_iff, List.find?_eq_none, List.contains_iff_mem]
      intro t ht hown
      exact hout (h n t ⟨r, Table.mem_entries.1 he, Resource.mem_references.1 ht⟩ hown)

theorem of_sharedReference? {owned : List String} {n referrer : String}
    (h : g.sharedReference? owned = some (n, referrer)) :
    g.Edge referrer n ∧ n ∈ owned ∧ referrer ∉ owned := by
  unfold sharedReference? at h
  obtain ⟨⟨m, r⟩, he, h⟩ := List.exists_of_findSome?_eq_some h
  simp only [List.contains_iff_mem] at h
  split_ifs at h with hout
  obtain ⟨t, ht, heq⟩ := Option.map_eq_some_iff.1 h
  cases heq
  refine ⟨⟨r, Table.mem_entries.1 he, ?_⟩, by simpa using List.find?_some ht, hout⟩
  exact Resource.mem_references.1 (List.mem_of_find?_eq_some ht)

theorem without_contains {owned : List String} {n : String} :
    (g.without owned).contains n ↔ g.contains n ∧ n ∉ owned := by
  simp only [contains, Table.contains, without, Table.get?_filter, Option.isSome_iff_exists,
    Option.filter_eq_some_iff]
  simp

theorem members_contains {owned : List String} {n : String} :
    (g.members owned).contains n ↔ g.contains n ∧ n ∈ owned := by
  simp only [contains, Table.contains, members, Table.get?_filter, Option.isSome_iff_exists,
    Option.filter_eq_some_iff]
  simp

theorem find?_missing {p : ScalingPolicy} (ht : ∀ t ∈ p.targets, g.contains t) :
    p.targets.find? (fun t => !g.contains t) = none :=
  List.find?_eq_none.2 fun t h => by simp [ht t h]

section Outcomes

variable {s : ScalingSynthesis} {p : ScalingPolicy} (hp : s.policy = some p)
include hp

theorem withScaling_of_missing (h : ¬ ∀ t ∈ p.targets, g.contains t) :
    ∃ t ∈ p.targets, ¬ g.contains t
      ∧ g.withScaling s = .error (.invalidScalingPolicy p.name (.targetNotInGraph t)) := by
  rcases hf : p.targets.find? fun t => !g.contains t with _ | t
  · exact absurd (fun t ht => by simpa using List.find?_eq_none.1 hf t ht) h
  · refine ⟨t, List.mem_of_find?_eq_some hf, by simpa using List.find?_some hf, ?_⟩
    simp only [withScaling, hp, hf]

theorem withScaling_of_shared (ht : ∀ t ∈ p.targets, g.contains t) (h : ¬ g.Unshared p.targets) :
    ∃ n referrer, g.Edge referrer n ∧ g.Owns p.targets n ∧ ¬ g.Owns p.targets referrer
      ∧ g.withScaling s = .error (.invalidGraph (.shared n (groupName p.name) referrer)) := by
  rcases hs : g.sharedReference? (g.owned p.targets) with _ | ⟨n, referrer⟩
  · refine absurd (fun n t hnt hown => ?_) h
    rw [← mem_owned_iff ht] at hown ⊢
    exact sharedReference?_eq_none.1 hs n t hnt hown
  · obtain ⟨he, hn, hr⟩ := of_sharedReference? hs
    rw [mem_owned_iff ht] at hn hr
    refine ⟨n, referrer, he, hn, hr, ?_⟩
    simp only [withScaling, hp, find?_missing ht, hs]

variable (hfragment : s.fragment = p.fragment)
include hfragment

/-- With every target there and nothing shared, what is left is to merge and to validate. -/
theorem withScaling_eq (ht : ∀ t ∈ p.targets, g.contains t) (hu : g.Unshared p.targets) :
    g.withScaling s =
      match ((g.without (g.owned p.targets)).addFile (memberFile p.name)
          (g.members (g.owned p.targets))).merged p.fragment with
      | .error f => .error (.invalidGraph f)
      | .ok merged =>
        match merged.validate with
        | .error f => .error (.invalidGraph f)
        | .ok () => .ok merged := by
  have hs : g.sharedReference? (g.owned p.targets) = none := by
    refine sharedReference?_eq_none.2 fun n t hnt hown => ?_
    rw [mem_owned_iff ht] at hown ⊢
    exact hu n t hnt hown
  simp only [withScaling, hp, find?_missing ht, hs, hfragment]
  split
  · rename_i f hf
    rw [hf]
    rfl
  · rename_i merged hm
    rw [hm]
    rcases hv : merged.validate with f | u
    · show (merged.validate.mapError Fault.invalidGraph >>= fun _ => pure merged) = _
      rw [hv]
      rfl
    · show (merged.validate.mapError Fault.invalidGraph >>= fun _ => pure merged) = _
      rw [hv]
      rfl

theorem withScaling_of_taken (ht : ∀ t ∈ p.targets, g.contains t) (hu : g.Unshared p.targets)
    (h : ¬ g.NamesFree p) :
    ∃ n ∈ p.resourceNames, g.contains n ∧ ¬ g.Owns p.targets n
      ∧ g.withScaling s = .error (.invalidGraph (.duplicate n)) := by
  have hclash : ∃ n, p.fragment.contains n
      ∧ ((g.without (g.owned p.targets)).addFile (memberFile p.name)
          (g.members (g.owned p.targets))).contains n := by
    unfold NamesFree at h
    push Not at h
    obtain ⟨n, hn, hc, hown⟩ := h
    rw [← mem_owned_iff ht] at hown
    exact ⟨n, p.fragment_contains.2 hn, without_contains.2 ⟨hc, hown⟩⟩
  obtain ⟨n, hm, hn, hc⟩ := merged_of_taken hclash
  obtain ⟨hc, hown⟩ := without_contains.1 hc
  rw [mem_owned_iff ht] at hown
  refine ⟨n, p.fragment_contains.1 hn, hc, hown, ?_⟩
  rw [withScaling_eq hp hfragment ht hu, hm]

theorem withScaling_of_free (ht : ∀ t ∈ p.targets, g.contains t) (hu : g.Unshared p.targets)
    (hf : g.NamesFree p) :
    g.withScaling s =
      match (g.regrouped p).validate with
      | .error f => .error (.invalidGraph f)
      | .ok () => .ok (g.regrouped p) := by
  have hfree : ∀ n, p.fragment.contains n →
      ¬ ((g.without (g.owned p.targets)).addFile (memberFile p.name)
          (g.members (g.owned p.targets))).contains n := by
    intro n hn hc
    obtain ⟨hc, hown⟩ := without_contains.1 hc
    exact hown ((mem_owned_iff ht).2 (hf n (p.fragment_contains.1 hn) hc))
  rw [withScaling_eq hp hfragment ht hu, merged_of_free hfree]
  rfl

/-- A graph that comes out had every target, nothing shared and the names free, and is `regrouped`,
which is valid. -/
theorem of_withScaling_eq_ok {merged : ResourceGraph} (h : g.withScaling s = .ok merged) :
    (∀ t ∈ p.targets, g.contains t) ∧ g.Unshared p.targets ∧ g.NamesFree p
      ∧ merged = g.regrouped p ∧ (g.regrouped p).validate = .ok () := by
  by_cases ht : ∀ t ∈ p.targets, g.contains t
  · by_cases hu : g.Unshared p.targets
    · by_cases hf : g.NamesFree p
      · refine ⟨ht, hu, hf, ?_⟩
        rw [withScaling_of_free hp hfragment ht hu hf] at h
        split at h <;> cases h
        exact ⟨rfl, ‹_›⟩
      · obtain ⟨n, -, -, -, heq⟩ := withScaling_of_taken hp hfragment ht hu hf
        rw [heq] at h
        cases h
    · obtain ⟨n, referrer, -, -, -, heq⟩ := withScaling_of_shared hp ht hu
      rw [heq] at h
      cases h
  · obtain ⟨t, -, -, heq⟩ := withScaling_of_missing hp ht
    rw [heq] at h
    cases h

end Outcomes

/-- A policy that counts brings its own fragment. -/
theorem fragment_of_scaling {d : Descriptor} {s : ScalingSynthesis} {p : ScalingPolicy}
    (hs : d.scaling = .ok s) (hp : s.policy = some p) : s.fragment = p.fragment := by
  unfold Descriptor.scaling at hs
  split at hs
  · cases hs
    simp at hp
  · split at hs
    · cases hs
    · split at hs
      · cases hs
      · cases hs
        cases hp
        rfl

end ResourceGraph

end Provision
