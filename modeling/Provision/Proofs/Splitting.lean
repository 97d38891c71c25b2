import Provision.Proofs.Regrouping

/-!
# A graph and its members apart

What the targets own moves out of the graph and nothing else does; nothing is lost, altered or torn
apart on the way (`Divides`). A name can be in both halves only if a resource that moved had the
name of the group or of one of its signals. Of a valid graph both halves are valid, so the move of
the members succeeds exactly if every target is there, nothing owned is shared and the names of the
group are free.
-/

namespace Provision

/-- Once every edge of `r` that is none of `s` leads to where `r` ends, a cycle of `r` is one of
`s`. -/
theorem no_cycle_of_sinks {α : Type} {r s : α → α → Prop}
    (h : ∀ a b, r a b → s a b ∨ ∀ c, ¬ r b c) (hs : ∀ a, ¬ Relation.TransGen s a a) (a : α) :
    ¬ Relation.TransGen r a a := by
  have hstep : ∀ b, Relation.TransGen r a b → (∃ c, r b c) → Relation.TransGen s a b := by
    intro b hab
    induction hab with
    | single hab =>
      rintro ⟨c, hc⟩
      exact .single ((h _ _ hab).resolve_right fun hn => hn c hc)
    | tail _ hbc ih =>
      rintro ⟨d, hd⟩
      exact .tail (ih ⟨_, hbc⟩) ((h _ _ hbc).resolve_right fun hn => hn d hd)
  intro hc
  obtain ⟨b, hab, -⟩ := Relation.TransGen.head'_iff.1 hc
  exact hs a (hstep a hc ⟨b, hab⟩)

namespace ResourceGraph

variable {g : ResourceGraph} {owned : List String}

/-! ## The two halves -/

theorem members_resource? {n : String} {r : Resource} :
    (g.members owned).resource? n = some r ↔ g.resource? n = some r ∧ n ∈ owned := by
  simp [resource?, members, Table.get?_filter, Option.filter_eq_some_iff]

theorem without_resource? {n : String} {r : Resource} :
    (g.without owned).resource? n = some r ↔ g.resource? n = some r ∧ n ∉ owned := by
  simp [resource?, without, Table.get?_filter, Option.filter_eq_some_iff]

theorem members_output {k : String} {o : Output} :
    (g.members owned).outputs.get? k = some o
      ↔ g.outputs.get? k = some o ∧ o.resource ∈ owned := by
  simp [members, Table.get?_filter, Option.filter_eq_some_iff]

theorem without_output {k : String} {o : Output} :
    (g.without owned).outputs.get? k = some o
      ↔ g.outputs.get? k = some o ∧ o.resource ∉ owned := by
  simp [without, Table.get?_filter, Option.filter_eq_some_iff]

theorem members_edge {n t : String} :
    (g.members owned).Edge n t ↔ g.Edge n t ∧ n ∈ owned := by
  unfold Edge
  simp only [members_resource?]
  constructor
  · rintro ⟨r, ⟨hr, hn⟩, ht⟩
    exact ⟨⟨r, hr, ht⟩, hn⟩
  · rintro ⟨⟨r, hr, ht⟩, hn⟩
    exact ⟨r, ⟨hr, hn⟩, ht⟩

theorem without_edge {n t : String} :
    (g.without owned).Edge n t ↔ g.Edge n t ∧ n ∉ owned := by
  unfold Edge
  simp only [without_resource?]
  constructor
  · rintro ⟨r, ⟨hr, hn⟩, ht⟩
    exact ⟨⟨r, hr, ht⟩, hn⟩
  · rintro ⟨⟨r, hr, ht⟩, hn⟩
    exact ⟨r, ⟨hr, hn⟩, ht⟩

/-- A part that all references lead out of into itself is coherent if the whole is. -/
theorem members_coherent (hg : g.Coherent) (h : ∀ n t, g.Edge n t → n ∈ owned → t ∈ owned) :
    (g.members owned).Coherent where
  references n t hnt := by
    obtain ⟨hnt, hn⟩ := members_edge.1 hnt
    exact members_contains.2 ⟨hg.references n t hnt, h n t hnt hn⟩
  outputs k o ho := by
    obtain ⟨ho, hown⟩ := members_output.1 ho
    exact members_contains.2 ⟨hg.outputs k o ho, hown⟩
  acyclic n hn :=
    hg.acyclic n (Relation.TransGen.mono (fun _ _ h => (members_edge.1 h).1) n n hn)

/-- What is left is coherent if no reference leads from it to what went. -/
theorem without_coherent (hg : g.Coherent) (h : ∀ n t, g.Edge n t → t ∈ owned → n ∈ owned) :
    (g.without owned).Coherent where
  references n t hnt := by
    obtain ⟨hnt, hn⟩ := without_edge.1 hnt
    exact without_contains.2 ⟨hg.references n t hnt, fun ht => hn (h n t hnt ht)⟩
  outputs k o ho := by
    obtain ⟨ho, hown⟩ := without_output.1 ho
    exact without_contains.2 ⟨hg.outputs k o ho, hown⟩
  acyclic n hn :=
    hg.acyclic n (Relation.TransGen.mono (fun _ _ h => (without_edge.1 h).1) n n hn)

section Regrouped

variable {p : ScalingPolicy}

theorem regrouped_resource? {n : String} :
    (g.regrouped p).resource? n
      = (p.fragment.resource? n).or ((g.without (g.owned p.targets)).resource? n) :=
  Table.get?_extend

theorem regrouped_edge {n t : String} (h : (g.regrouped p).Edge n t) :
    p.fragment.Edge n t ∨ (g.without (g.owned p.targets)).Edge n t := by
  obtain ⟨r, hr, ht⟩ := h
  rw [regrouped_resource?, Option.or_eq_some_iff] at hr
  rcases hr with hr | ⟨-, hr⟩
  · exact .inl ⟨r, hr, ht⟩
  · exact .inr ⟨r, hr, ht⟩

theorem regrouped_contains {n : String} :
    (g.regrouped p).contains n
      ↔ p.fragment.contains n ∨ (g.without (g.owned p.targets)).contains n := by
  have h : ∀ g' : ResourceGraph, g'.contains n = (g'.resource? n).isSome := fun _ => rfl
  rw [h, h, h, regrouped_resource?]
  simp

theorem regrouped_file? {f : String} :
    (g.regrouped p).file? f
      = if f = memberFile p.name then some (g.members (g.owned p.targets)) else g.file? f :=
  Entries.get?_put

variable (ht : ∀ t ∈ p.targets, g.contains t)
include ht

theorem regrouped_resource?_eq_some (hf : g.NamesFree p) {n : String} {r : Resource} :
    (g.regrouped p).resource? n = some r
      ↔ p.fragment.resource? n = some r ∨ (g.resource? n = some r ∧ n ∉ g.owned p.targets) := by
  rw [regrouped_resource?, Option.or_eq_some_iff, without_resource?]
  refine or_congr Iff.rfl ⟨fun h => h.2, fun h => ⟨?_, h⟩⟩
  by_contra hne
  obtain ⟨r', hr'⟩ := Option.ne_none_iff_exists'.1 hne
  have hn := p.fragment_contains.1 (Table.contains_of_get? hr')
  exact h.2 ((mem_owned_iff ht).2 (hf n hn (Table.contains_of_get? h.1)))

/-- The group's name is not among the resources that stay: what refers to the group ends there. -/
theorem regrouped_sinks (hf : g.NamesFree p) {n t : String} (h : (g.regrouped p).Edge n t) :
    (g.without (g.owned p.targets)).Edge n t ∨ ∀ u, ¬ (g.regrouped p).Edge t u := by
  rcases regrouped_edge h with h | h
  · obtain ⟨-, rfl⟩ := p.fragment_edge h
    refine .inr fun u hu => ?_
    rcases regrouped_edge hu with hu | hu
    · exact (p.fragment_edge hu).1 rfl
    · obtain ⟨hc, hout⟩ := without_contains.1 (contains_of_edge hu)
      exact hout ((mem_owned_iff ht).2 (hf _ List.mem_cons_self hc))
  · exact .inl h

theorem regrouped_coherent (hg : g.Coherent) (hu : g.Unshared p.targets) (hf : g.NamesFree p) :
    (g.regrouped p).Coherent := by
  have hrest : (g.without (g.owned p.targets)).Coherent := by
    refine without_coherent hg fun n t hnt hown => ?_
    rw [mem_owned_iff ht] at hown ⊢
    exact hu n t hnt hown
  refine ⟨fun n t h => ?_, fun k o h => ?_, ?_⟩
  · rcases regrouped_edge h with h | h
    · obtain ⟨-, rfl⟩ := p.fragment_edge h
      exact regrouped_contains.2 (.inl (p.fragment_contains.2 List.mem_cons_self))
    · exact regrouped_contains.2 (.inr (hrest.references n t h))
  · exact regrouped_contains.2 (.inr (hrest.outputs k o h))
  · exact no_cycle_of_sinks (fun _ _ => regrouped_sinks ht hf) hrest.acyclic

theorem owned_members_coherent (hg : g.Coherent) : (g.members (g.owned p.targets)).Coherent := by
  refine members_coherent hg fun n t hnt hown => ?_
  rw [mem_owned_iff ht] at hown ⊢
  exact hown.edge hnt

/-- Both halves of a valid graph are valid. -/
theorem regrouped_validate (hg : g.validate = .ok ()) (hu : g.Unshared p.targets)
    (hf : g.NamesFree p) : (g.regrouped p).validate = .ok () := by
  rw [validate_eq_ok_iff] at hg ⊢
  have hself := hg g (.self g)
  intro inner h
  rcases nestedIn_iff.1 h with rfl | ⟨e, he, h⟩
  · exact regrouped_coherent ht hself hu hf
  · rcases Entries.of_mem_put he with rfl | he
    · rcases nestedIn_iff.1 h with rfl | ⟨e, he, -⟩
      · exact owned_members_coherent ht hself
      · simp [members, empty] at he
    · exact hg inner (nestedIn_iff.2 (.inr ⟨e, he, h⟩))

end Regrouped

/-! ## Nothing lost, nothing torn apart -/

/-- How a graph is divided by the move of its members: what moved is the least set that holds the
targets and is closed, and the search ends with it; every resource and every output is unchanged in
the half it belongs to, the merged graph holding besides only the `fragment`; no reference leads
from one half to the other; the rest of the graph stays as it was. -/
structure Divides (g : ResourceGraph) (p : ScalingPolicy)
    (fragment merged members : ResourceGraph) : Prop where
  moved : IsLeast {S | g.OwnershipClosed p.targets S} {n | members.contains n}
  search : ∀ n, n ∈ g.owned p.targets ↔ members.contains n
  movedResources : ∀ n r, members.resource? n = some r ↔ g.resource? n = some r ∧ members.contains n
  keptResources : ∀ n r, merged.resource? n = some r
    ↔ fragment.resource? n = some r ∨ (g.resource? n = some r ∧ ¬ members.contains n)
  fragmentNames : ∀ n, fragment.contains n ↔ n ∈ p.resourceNames
  fragmentApart : ∀ n, fragment.contains n → g.contains n → members.contains n
  movedOutputs : ∀ k o, members.outputs.get? k = some o
    ↔ g.outputs.get? k = some o ∧ members.contains o.resource
  keptOutputs : ∀ k o, merged.outputs.get? k = some o
    ↔ g.outputs.get? k = some o ∧ ¬ members.contains o.resource
  references : ∀ n t, g.Edge n t → (members.contains n ↔ members.contains t)
  movedReferences : ∀ n t, members.Edge n t → members.contains t
  keptReferences : ∀ n t, merged.Edge n t → merged.contains t
  description : merged.description = g.description
  files : ∀ f, f ≠ memberFile p.name → merged.file? f = g.file? f

theorem regrouped_divides {p : ScalingPolicy} (ht : ∀ t ∈ p.targets, g.contains t)
    (hu : g.Unshared p.targets) (hf : g.NamesFree p)
    (hv : (g.regrouped p).validate = .ok ()) :
    Divides g p p.fragment (g.regrouped p) (g.members (g.owned p.targets)) := by
  have hcoherent := validate_eq_ok_iff.1 hv
  have hmerged := hcoherent _ (.self _)
  have hmembers : (g.members (g.owned p.targets)).Coherent :=
    hcoherent _ (.file Entries.mem_put_self (.self _))
  -- A dangling name among what is owned would dangle in the members.
  have hcontains : ∀ n, g.Owns p.targets n → g.contains n := by
    rintro n ⟨t, htt, hn⟩
    induction hn with
    | refl => exact ht t htt
    | @tail m n hm hmn ih =>
      rcases hmn with hmn | ⟨r, hr, -⟩
      · have hown := (mem_owned_iff ht).2 ⟨t, htt, hm⟩
        exact (members_contains.1 (hmembers.references m n (members_edge.2 ⟨hmn, hown⟩))).1
      · exact Table.contains_of_get? hr
  have hsearch : ∀ n, n ∈ g.owned p.targets ↔ (g.members (g.owned p.targets)).contains n := by
    intro n
    rw [members_contains]
    exact ⟨fun h => ⟨hcontains n ((mem_owned_iff ht).1 h), h⟩, fun h => h.2⟩
  have hleast : {n | (g.members (g.owned p.targets)).contains n} = {n | g.Owns p.targets n} :=
    Set.ext fun n => (hsearch n).symm.trans (mem_owned_iff ht)
  refine
    { moved := ?_
      search := hsearch
      movedResources := fun n r => ?_
      keptResources := fun n r => ?_
      fragmentNames := fun n => p.fragment_contains
      fragmentApart := fun n hn hc => ?_
      movedOutputs := fun k o => ?_
      keptOutputs := fun k o => ?_
      references := fun n t hnt => ?_
      movedReferences := hmembers.references
      keptReferences := hmerged.references
      description := rfl
      files := fun f hne => ?_ }
  · rw [hleast]
    exact isLeast_owns hcontains
  · rw [members_resource?, hsearch]
  · rw [regrouped_resource?_eq_some ht hf, hsearch]
  · exact (hsearch n).1 ((mem_owned_iff ht).2 (hf n (p.fragment_contains.1 hn) hc))
  · rw [members_output, hsearch]
  · rw [show (g.regrouped p).outputs = (g.without (g.owned p.targets)).outputs from rfl,
      without_output, hsearch]
  · rw [← hsearch, ← hsearch, mem_owned_iff ht, mem_owned_iff ht]
    exact ⟨fun h => h.edge hnt, hu n t hnt⟩
  · rw [regrouped_file?, if_neg hne]

/-- A graph whose members have moved is divided: the members' template holds what the targets own
and the merged graph the rest and the fragment. -/
theorem withScaling_divides {d : Descriptor} {s : ScalingSynthesis} {p : ScalingPolicy}
    {merged : ResourceGraph} (hs : d.scaling = .ok s) (hp : s.policy = some p)
    (hm : g.withScaling s = .ok merged) :
    ∃ members, merged.file? (memberFile p.name) = some members
      ∧ Divides g p s.fragment merged members := by
  have hfragment := fragment_of_scaling hs hp
  obtain ⟨ht, hu, hf, rfl, hv⟩ := of_withScaling_eq_ok hp hfragment hm
  refine ⟨g.members (g.owned p.targets), ?_, ?_⟩
  · rw [regrouped_file?, if_pos rfl]
  · rw [hfragment]
    exact regrouped_divides ht hu hf hv

/-- A policy on one server. -/
def lonePolicy : ScalingPolicy := ⟨"SP1", ["VDU1"], 1, 3, 1, 1, 60⟩

/-- The descriptor of one server with that policy. -/
def loneDescriptor : Descriptor :=
  ((Descriptor.named "vnf").withComponent "VDU1" (.compute .blank)).withPolicy (.scaling lonePolicy)

/-- What the descriptor says about scaling. -/
def loneScaling : ScalingSynthesis :=
  ⟨some lonePolicy, Table.empty.put "SP1" "SP1_group", lonePolicy.fragment⟩

/-- A graph whose server refers to a resource that looks just like the group of the policy and has
its name. -/
def lookalike : ResourceGraph :=
  { ResourceGraph.empty with
    resources := .ofList
      [("SP1_group", lonePolicy.group),
       ("VDU1", (Resource.new serverType).set "scheduler_hints"
          (.single "group" (.resource "SP1_group")))] }

theorem lookalike_withScaling :
    lookalike.withScaling loneScaling = .ok (lookalike.regrouped lonePolicy) := by
  have hok : (lookalike.withScaling loneScaling).toBool = true := by decide +kernel
  rcases hm : lookalike.withScaling loneScaling with fault | merged
  · rw [hm] at hok
    cases hok
  · obtain ⟨-, -, -, rfl, -⟩ := of_withScaling_eq_ok (p := lonePolicy) rfl rfl hm
    rfl

theorem lookalike_divides :
    loneDescriptor.scaling = .ok loneScaling ∧ loneScaling.policy = some lonePolicy
      ∧ ∃ members,
        (lookalike.regrouped lonePolicy).file? (memberFile lonePolicy.name) = some members
        ∧ Divides lookalike lonePolicy loneScaling.fragment (lookalike.regrouped lonePolicy)
          members :=
  ⟨rfl, rfl, withScaling_divides (d := loneDescriptor) rfl rfl lookalike_withScaling⟩

/-- A resource that moved can be found in the merged graph too, body and all, where the fragment
brings its like under the same name. -/
theorem lookalike_in_both_halves :
    loneDescriptor.scaling = .ok loneScaling ∧ loneScaling.policy = some lonePolicy
      ∧ ∃ merged members, lookalike.withScaling loneScaling = .ok merged
        ∧ merged.file? (memberFile lonePolicy.name) = some members
        ∧ lookalike.resource? "SP1_group" = some lonePolicy.group
        ∧ members.resource? "SP1_group" = some lonePolicy.group
        ∧ merged.resource? "SP1_group" = some lonePolicy.group := by
  refine ⟨rfl, rfl, lookalike.regrouped lonePolicy, lookalike.members (lookalike.owned ["VDU1"]),
    lookalike_withScaling, ?_, rfl, ?_, ?_⟩
  · rw [regrouped_file?, if_pos rfl]
    rfl
  · have howned : lookalike.owned ["VDU1"] = ["SP1_group", "VDU1"] := by decide +kernel
    exact members_resource?.2 ⟨rfl, by simp [howned]⟩
  · rw [regrouped_resource?]
    rfl

/-! ## When the members can move -/

/-- The members of a valid graph can move exactly if every target is there, nothing they own is
referred to from outside, and the names of the group and its signals are free but for what moves.
Then both halves are valid; otherwise the fault is the first of the three that applies. -/
theorem withScaling_ok_iff {d : Descriptor} {s : ScalingSynthesis} {p : ScalingPolicy}
    (hg : g.validate = .ok ()) (hs : d.scaling = .ok s) (hp : s.policy = some p) :
    ((∃ merged, g.withScaling s = .ok merged)
        ↔ (∀ t ∈ p.targets, g.contains t) ∧ g.Unshared p.targets ∧ g.NamesFree p)
      ∧ (∀ merged, g.withScaling s = .ok merged → merged.validate = .ok ()
        ∧ ∃ members, merged.file? (memberFile p.name) = some members ∧ members.validate = .ok ())
      ∧ ∀ fault, g.withScaling s = .error fault →
        (∃ t ∈ p.targets, ¬ g.contains t
            ∧ fault = .invalidScalingPolicy p.name (.targetNotInGraph t))
          ∨ ((∀ t ∈ p.targets, g.contains t) ∧ ∃ n referrer, g.Edge referrer n
            ∧ g.Owns p.targets n ∧ ¬ g.Owns p.targets referrer
            ∧ fault = .invalidGraph (.shared n (groupName p.name) referrer))
          ∨ ((∀ t ∈ p.targets, g.contains t) ∧ g.Unshared p.targets ∧ ∃ n ∈ p.resourceNames,
            g.contains n ∧ ¬ g.Owns p.targets n ∧ fault = .invalidGraph (.duplicate n)) := by
  have hfragment := fragment_of_scaling hs hp
  refine ⟨⟨?_, ?_⟩, ?_, ?_⟩
  · rintro ⟨merged, hm⟩
    obtain ⟨ht, hu, hf, -, -⟩ := of_withScaling_eq_ok hp hfragment hm
    exact ⟨ht, hu, hf⟩
  · rintro ⟨ht, hu, hf⟩
    refine ⟨g.regrouped p, ?_⟩
    rw [withScaling_of_free hp hfragment ht hu hf, regrouped_validate ht hg hu hf]
  · intro merged hm
    obtain ⟨ht, -, -, rfl, hv⟩ := of_withScaling_eq_ok hp hfragment hm
    refine ⟨hv, g.members (g.owned p.targets), ?_, ?_⟩
    · rw [regrouped_file?, if_pos rfl]
    · rw [validate_eq_ok_iff] at hv ⊢
      exact fun inner h => hv inner (.file Entries.mem_put_self h)
  · intro fault hfault
    by_cases ht : ∀ t ∈ p.targets, g.contains t
    · by_cases hu : g.Unshared p.targets
      · by_cases hf : g.NamesFree p
        · rw [withScaling_of_free hp hfragment ht hu hf, regrouped_validate ht hg hu hf] at hfault
          cases hfault
        · obtain ⟨n, hn, hc, hown, heq⟩ := withScaling_of_taken hp hfragment ht hu hf
          rw [heq] at hfault
          cases hfault
          exact .inr (.inr ⟨ht, hu, n, hn, hc, hown, rfl⟩)
      · obtain ⟨n, referrer, he, hn, hr, heq⟩ := withScaling_of_shared hp ht hu
        rw [heq] at hfault
        cases hfault
        exact .inr (.inl ⟨ht, n, referrer, he, hn, hr, rfl⟩)
    · obtain ⟨t, htt, hc, heq⟩ := withScaling_of_missing hp ht
      rw [heq] at hfault
      cases hfault
      exact .inl ⟨t, htt, hc, rfl⟩

/-- What becomes of that graph: the group is in place of the server, and all that was there has
moved. -/
def lookalikeMerged : ResourceGraph :=
  { ResourceGraph.empty with
    resources := .ofList
      [("SP1_group", lonePolicy.group),
       ("SP1_scale_in", lonePolicy.signal .shrink),
       ("SP1_scale_out", lonePolicy.signal .grow)]
    files := [("SP1_res.yaml", lookalike)] }

theorem lookalike_regrouped : lookalike.regrouped lonePolicy = lookalikeMerged := by
  have howned : lookalike.owned lonePolicy.targets = ["SP1_group", "VDU1"] := by decide +kernel
  unfold regrouped
  rw [howned]
  rfl

theorem lookalike_ok_iff :
    lookalike.validate = .ok () ∧ loneDescriptor.scaling = .ok loneScaling
      ∧ lookalike.withScaling loneScaling = .ok lookalikeMerged
      ∧ (∀ t ∈ lonePolicy.targets, lookalike.contains t)
      ∧ lookalike.Unshared lonePolicy.targets ∧ lookalike.NamesFree lonePolicy
      ∧ lookalikeMerged.validate = .ok ()
      ∧ ∃ members, lookalikeMerged.file? "SP1_res.yaml" = some members
        ∧ members.validate = .ok () := by
  have hvalid : lookalike.validate = .ok () := by
    have hok : lookalike.validate.toBool = true := by decide +kernel
    rcases hv : lookalike.validate with fault | _
    · rw [hv] at hok
      cases hok
    · rfl
  have hmerged : lookalike.withScaling loneScaling = .ok lookalikeMerged := by
    rw [← lookalike_regrouped]
    exact lookalike_withScaling
  obtain ⟨hiff, hhalves, -⟩ :=
    withScaling_ok_iff (d := loneDescriptor) (s := loneScaling) hvalid rfl rfl
  obtain ⟨htargets, hunshared, hfree⟩ := hiff.1 ⟨_, hmerged⟩
  obtain ⟨hmergedValid, hmembers⟩ := hhalves _ hmerged
  exact ⟨hvalid, rfl, hmerged, htargets, hunshared, hfree, hmergedValid, hmembers⟩

end ResourceGraph

end Provision
