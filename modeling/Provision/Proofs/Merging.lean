import Provision.Graph
import Provision.Proofs.Tables
import Mathlib.Logic.Basic

/-!
# Graphs that are merged

The resources of a fragment are added in the order of their names, so a merge that comes upon a name
that is taken has added exactly those with smaller names (`merge_of_clash`). If no name is taken it
adds all of them (`merge_of_free`), and only then come the outputs and the nested graphs. What a
graph holds after a merge is said look-up by look-up (`merge_outcome`).
-/

namespace Provision

/-- Of the entries put to others in turn those count, if their names are different. -/
theorem Entries.get?_foldl_put {α : Type} {x : String} :
    ∀ {es fs : List (String × α)}, Ascending (names es) →
      get? x (es.foldl (fun fs e => put e.1 e.2 fs) fs) = (get? x es).or (get? x fs)
  | [], _, _ => rfl
  | (name, value) :: es, fs, ha => by
    simp only [names, List.map_cons, Ascending, List.pairwise_cons] at ha
    rw [List.foldl_cons, get?_foldl_put ha.2, get?_put, get?]
    split
    · rename_i hx
      subst hx
      rw [get?_eq_none.2 fun h => String.lt_irrefl x (ha.1 x h)]
      rfl
    · rfl

namespace ResourceGraph

variable {g fragment merged : ResourceGraph} {name : String}

theorem contains_put {x : String} {r : Resource} :
    contains { g with resources := g.resources.put name r } x ↔ x = name ∨ g.contains x := by
  simp only [contains, Table.contains, Table.get?_put]
  split_ifs with h <;> simp [h]

/-- The name is the least one that both graphs have for a resource. -/
structure LeastClash (g fragment : ResourceGraph) (name : String) : Prop where
  here : g.contains name
  there : fragment.contains name
  least : ∀ n, g.contains n → fragment.contains n → ¬ n < name

theorem exists_leastClash {n : String} (hg : g.contains n) (hf : fragment.contains n) :
    ∃ name, g.LeastClash fragment name := by
  have ha : Ascending fragment.resources.names := fragment.resources.ascending
  have hsome : (fragment.resources.names.find? g.contains).isSome :=
    List.find?_isSome.2 ⟨n, Table.mem_names.2 hf, hg⟩
  obtain ⟨name, hname⟩ := Option.isSome_iff_exists.1 hsome
  obtain ⟨hc, before, after, hsplit, hbefore⟩ := List.find?_eq_some_iff_append.1 hname
  rw [hsplit, Ascending, List.pairwise_append, List.pairwise_cons] at ha
  have hmem (m : String) : fragment.contains m ↔ m ∈ before ∨ m = name ∨ m ∈ after := by
    rw [ResourceGraph.contains, ← Table.mem_names, hsplit]
    simp
  refine ⟨name, hc, (hmem name).2 (.inr (.inl rfl)), fun m hm hmf hlt => ?_⟩
  rcases (hmem m).1 hmf with hb | rfl | hafter
  · simpa [hm] using hbefore m hb
  · exact String.lt_irrefl m hlt
  · exact String.lt_asymm hlt (ha.2.1.1 m hafter)

theorem addAll_of_free :
    ∀ (rs : List (String × Resource)) (g : ResourceGraph), Ascending (Entries.names rs) →
      (∀ e ∈ rs, ¬ g.contains e.1) → g.addAll rs
        = ({ g with resources := rs.foldl (fun t e => t.put e.1 e.2) g.resources }, none)
  | [], ⟨_, _, _, _⟩, _, _ => rfl
  | (name, r) :: rs, g, ha, hf => by
    simp only [Entries.names, List.map_cons, Ascending, List.pairwise_cons] at ha
    have hname : g.contains name = false := by simpa using hf _ List.mem_cons_self
    have hrest : ∀ e ∈ rs, ¬ contains { g with resources := g.resources.put name r } e.1 := by
      intro e he
      rw [contains_put]
      rintro (heq | hc)
      · exact String.lt_irrefl name (heq ▸ ha.1 e.1 (List.mem_map_of_mem he))
      · exact hf e (List.mem_cons_of_mem _ he) hc
    rw [addAll, add, hname, if_neg (by simp)]
    exact addAll_of_free rs _ ha.2 hrest

/-- Resources are added up to the first whose name is taken: all those with smaller names. -/
theorem addAll_of_clash {m : String} :
    ∀ (rs : List (String × Resource)) (g : ResourceGraph), Ascending (Entries.names rs) →
      m ∈ Entries.names rs → g.contains m → (∀ e ∈ rs, g.contains e.1 → ¬ e.1 < m) → g.addAll rs
        = ({ g with resources :=
              (rs.filter fun e => e.1 < m).foldl (fun t e => t.put e.1 e.2) g.resources },
            some (.duplicate m))
  | (name, r) :: rs, g, ha, hm, hg, hleast => by
    simp only [Entries.names, List.map_cons, Ascending, List.pairwise_cons] at ha hm
    by_cases hname : g.contains name
    · -- A taken name is not smaller, and those after it are greater.
      have heq : m = name := (List.mem_cons.1 hm).resolve_right fun h =>
        hleast _ List.mem_cons_self hname (ha.1 m h)
      subst heq
      have hnone : ((m, r) :: rs).filter (fun e => e.1 < m) = [] := by
        refine List.filter_eq_nil_iff.2 (List.forall_mem_cons.2 ⟨?_, fun e he => ?_⟩)
        · simp
        · simpa using String.lt_asymm (ha.1 e.1 (List.mem_map_of_mem he))
      rw [addAll, add, if_pos hname, hnone]
      cases g
      rfl
    · have hrest : m ∈ rs.map Prod.fst := (List.mem_cons.1 hm).resolve_left fun h => hname (h ▸ hg)
      have hlt : name < m := ha.1 m hrest
      rw [addAll, add, if_neg hname, List.filter_cons_of_pos (by simpa using hlt)]
      refine addAll_of_clash rs _ ha.2 hrest (contains_put.2 (.inr hg)) fun e he hc => ?_
      rcases contains_put.1 hc with heq | hc
      · exact absurd (ha.1 e.1 (List.mem_map_of_mem he)) (heq ▸ String.lt_irrefl name)
      · exact hleast e (List.mem_cons_of_mem _ he) hc

/-- A fragment whose names are all free is added as a whole. -/
theorem merge_of_free (h : ∀ n, fragment.contains n → ¬ g.contains n) :
    g.merge fragment = ({ g with
      resources := g.resources.extend fragment.resources
      outputs := g.outputs.extend fragment.outputs
      files := fragment.files.foldl (fun fs e => Entries.put e.1 e.2 fs) g.files }, none) := by
  have hf : ∀ e ∈ fragment.resources.entries, ¬ g.contains e.1 := fun e he =>
    h e.1 (Table.contains_of_get? (Table.mem_entries.1 he))
  unfold merge
  rw [addAll_of_free _ _ fragment.resources.ascending hf]
  rfl

/-- A fragment with a name that is taken is added up to there, as far as its resources go. -/
theorem merge_of_clash (h : g.LeastClash fragment name) :
    g.merge fragment = ({ g with
      resources := g.resources.extend (fragment.resources.filter fun n _ => n < name) },
        some (.duplicate name)) := by
  have hleast : ∀ e ∈ fragment.resources.entries, g.contains e.1 → ¬ e.1 < name :=
    fun e he hc => h.least e.1 hc (Table.contains_of_get? (Table.mem_entries.1 he))
  unfold merge
  rw [addAll_of_clash _ _ fragment.resources.ascending (Table.mem_names.2 h.there) h.here hleast]
  rfl

theorem merged_of_free (h : ∀ n, fragment.contains n → ¬ g.contains n) :
    g.merged fragment = .ok { g with
      resources := g.resources.extend fragment.resources
      outputs := g.outputs.extend fragment.outputs
      files := fragment.files.foldl (fun fs e => Entries.put e.1 e.2 fs) g.files } := by
  rw [ResourceGraph.merged, merge_of_free h]

theorem merged_of_taken (h : ∃ n, fragment.contains n ∧ g.contains n) :
    ∃ n, g.merged fragment = .error (.duplicate n) ∧ fragment.contains n ∧ g.contains n := by
  obtain ⟨n, hn, hg⟩ := h
  obtain ⟨name, hclash⟩ := exists_leastClash hg hn
  refine ⟨name, ?_, hclash.there, hclash.here⟩
  rw [ResourceGraph.merged, merge_of_clash hclash]

/-! ## What is there afterwards -/

/-- The merged graph holds what either graph holds. Outputs and nested graphs that both have under
one name are the fragment's, and the description is that of the graph itself. -/
structure Joins (g fragment merged : ResourceGraph) : Prop where
  resources : ∀ n r, merged.resource? n = some r ↔ g.resource? n = some r
    ∨ fragment.resource? n = some r
  outputs : ∀ n, merged.outputs.get? n = (fragment.outputs.get? n).or (g.outputs.get? n)
  files : ∀ n, merged.file? n = (fragment.file? n).or (g.file? n)
  description : merged.description = g.description

/-- The graph that is left has the resources of the fragment with names smaller than this one, and
is otherwise as it was. -/
structure GainsBelow (g fragment : ResourceGraph) (name : String) (left : ResourceGraph) :
    Prop where
  resources : ∀ n r, left.resource? n = some r ↔ g.resource? n = some r
    ∨ n < name ∧ fragment.resource? n = some r
  outputs : left.outputs = g.outputs
  files : left.files = g.files
  description : left.description = g.description

theorem resource?_extend_iff {t : Table Resource} {n : String} {r : Resource}
    (h : ∀ r, t.get? n = some r → ¬ g.contains n) :
    (g.resources.extend t).get? n = some r ↔ g.resource? n = some r ∨ t.get? n = some r := by
  rw [Table.get?_extend, Option.or_eq_some_iff]
  constructor
  · rintro (ht | ⟨-, hg⟩)
    · exact .inr ht
    · exact .inl hg
  · rintro (hg | ht)
    · refine .inr ⟨Option.eq_none_iff_forall_ne_some.2 fun r' ht => ?_, hg⟩
      exact h r' ht (Table.contains_of_get? hg)
    · exact .inl ht

theorem joins_of_free (hfiles : Ascending (Entries.names fragment.files))
    (h : ∀ n, fragment.contains n → ¬ g.contains n) :
    g.Joins fragment (g.merge fragment).1 := by
  rw [merge_of_free h]
  exact ⟨fun n r => resource?_extend_iff fun _ hr => h n (Table.contains_of_get? hr),
    fun _ => Table.get?_extend, fun _ => Entries.get?_foldl_put hfiles, rfl⟩

theorem gainsBelow_of_clash (h : g.LeastClash fragment name) :
    g.GainsBelow fragment name (g.merge fragment).1 := by
  have hsmaller (n : String) (r : Resource) :
      (fragment.resources.filter fun n _ => n < name).get? n = some r
        ↔ n < name ∧ fragment.resource? n = some r := by
    rw [Table.get?_filter, Option.filter_eq_some_iff, decide_eq_true_eq, and_comm]
    rfl
  rw [merge_of_clash h]
  refine ⟨fun n r => ?_, rfl, rfl, rfl⟩
  rw [← hsmaller]
  refine resource?_extend_iff fun r' hr' hc => ?_
  obtain ⟨hlt, hr⟩ := (hsmaller n r').1 hr'
  exact h.least n hc (Table.contains_of_get? hr) hlt

/-- A merge succeeds exactly if no name is that of a resource in both graphs, and then the graph
holds what either of them held. It fails for the least name that both have, and then the graph has
gained the resources with smaller names and nothing else. -/
theorem merge_outcome (g fragment : ResourceGraph)
    (hfiles : Ascending (Entries.names fragment.files)) :
    ((g.merge fragment).2 = none ↔ ∀ n, ¬ (g.contains n ∧ fragment.contains n))
    ∧ ((g.merge fragment).2 = none → g.Joins fragment (g.merge fragment).1)
    ∧ ∀ fault, (g.merge fragment).2 = some fault → ∃ name, fault = .duplicate name
        ∧ g.LeastClash fragment name ∧ g.GainsBelow fragment name (g.merge fragment).1 := by
  by_cases hfree : ∀ n, fragment.contains n → ¬ g.contains n
  · have hnone : (g.merge fragment).2 = none := by rw [merge_of_free hfree]
    refine ⟨iff_of_true hnone fun n hn => hfree n hn.2 hn.1, fun _ => joins_of_free hfiles hfree,
      fun fault hf => ?_⟩
    rw [hnone] at hf
    cases hf
  · push Not at hfree
    obtain ⟨n, hn, hg⟩ := hfree
    obtain ⟨name, hclash⟩ := exists_leastClash hg hn
    have hsome : (g.merge fragment).2 = some (.duplicate name) := by rw [merge_of_clash hclash]
    refine ⟨iff_of_false (by simp [hsome]) fun h => h n ⟨hg, hn⟩, fun h => ?_, fun fault hf => ?_⟩
    · rw [hsome] at h
      cases h
    · rw [hsome, Option.some_inj] at hf
      exact ⟨name, hf.symm, hclash, gainsBelow_of_clash hclash⟩

/-- A server with a port. -/
def served : ResourceGraph :=
  { empty with
    resources := .ofList [("VDU1", .new "OS::Nova::Server"), ("port", .new "OS::Neutron::Port")] }

/-- A port of the same name, between two resources with names of their own, and a nested graph. -/
def rival : ResourceGraph :=
  { empty with
    resources := .ofList
      [("net", .new "OS::Neutron::Net"), ("port", .new "OS::Neutron::Port"),
       ("volume", .new "OS::Cinder::Volume")]
    files := [("members.yaml", empty)] }

/-- The merge stops between the two. -/
theorem rival_stops : Ascending (Entries.names rival.files)
    ∧ (served.merge rival).2 = some (.duplicate "port")
    ∧ served.GainsBelow rival "port" (served.merge rival).1
    ∧ (served.merge rival).1.contains "net" ∧ ¬ (served.merge rival).1.contains "volume" := by
  have hfiles : Ascending (Entries.names rival.files) := by decide
  have hclash : (served.merge rival).2 = some (.duplicate "port") := rfl
  obtain ⟨-, -, hfails⟩ := served.merge_outcome rival hfiles
  obtain ⟨name, hname, -, hgains⟩ := hfails _ hclash
  cases hname
  exact ⟨hfiles, hclash, hgains, by decide, by decide⟩

end ResourceGraph

end Provision
