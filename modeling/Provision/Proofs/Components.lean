import Provision.Compile
import Provision.Proofs.Returns
import Provision.Proofs.Tables
import Mathlib.Data.List.Perm.Basic

/-!
# Components by kind

The components of one kind are those entries of the descriptor, each once. The connection points are
filed under the compute components that they are bound to, each under one, and then put in the order
of the ports (`of_pointsByCompute`).
-/

namespace Provision

/-- Filed under labels that are all listed once, a list is still the same but for the order. -/
theorem flatMap_filter_perm {α β : Type} [DecidableEq β] {label : α → β} {labels : List β}
    (hn : labels.Nodup) {as : List α} (h : ∀ a ∈ as, label a ∈ labels) :
    (labels.flatMap fun l => as.filter fun a => label a = l).Perm as := by
  induction labels generalizing as with
  | nil =>
    rcases as with _ | ⟨a, as⟩
    · exact .nil
    · exact absurd (h a List.mem_cons_self) List.not_mem_nil
  | cons first labels ih =>
    obtain ⟨hfirst, hn⟩ := List.nodup_cons.1 hn
    -- The rest of the labels files what does not go under the first one.
    have hrest : (labels.flatMap fun l => as.filter fun a => label a = l)
        = labels.flatMap fun l => (as.filter fun a => !decide (label a = first)).filter
          fun a => label a = l := by
      refine List.flatMap_congr fun l hl => ?_
      rw [List.filter_filter]
      refine List.filter_congr fun a _ => ?_
      by_cases hb : label a = l
      · have : l ≠ first := fun he => hfirst (he ▸ hl)
        simp [hb, this]
      · simp [hb]
    rw [List.flatMap_cons, hrest]
    refine ((ih hn fun a ha => ?_).append_left _).trans (List.filter_append_perm _ as)
    obtain ⟨ha, hb⟩ := List.mem_filter.1 ha
    refine (List.mem_cons.1 (h a ha)).resolve_left fun he => ?_
    simp [he] at hb

namespace Descriptor

variable {d : Descriptor} {name : String}

theorem mem_select {α : Type} {kind : Component → Option α} {a : α} :
    (name, a) ∈ d.select kind ↔ ∃ c, d.components.get? name = some c ∧ kind c = some a := by
  simp only [select, List.mem_filterMap, Option.map_eq_some_iff, Prod.mk.injEq]
  constructor
  · rintro ⟨⟨k, c⟩, he, b, hb, rfl, rfl⟩
    exact ⟨c, Table.mem_entries.1 he, hb⟩
  · rintro ⟨c, hc, ha⟩
    exact ⟨(name, c), Table.mem_entries.2 hc, a, ha, rfl, rfl⟩

theorem names_select_sublist {α : Type} (kind : Component → Option α) :
    ∀ es : List (String × Component),
      ((es.filterMap fun e => (kind e.2).map fun a => (e.1, a)).map Prod.fst).Sublist
        (Entries.names es)
  | [] => .slnil
  | (k, c) :: es => by
    rw [List.filterMap_cons]
    rcases kind c with _ | a
    · exact (names_select_sublist kind es).cons k
    · exact (names_select_sublist kind es).cons_cons k

theorem nodup_select {α : Type} (kind : Component → Option α) :
    ((d.select kind).map Prod.fst).Nodup := by
  have hn : (Entries.names d.components.entries).Nodup :=
    d.components.ascending.imp fun h => String.ne_of_lt h
  exact hn.sublist (names_select_sublist kind d.components.entries)

theorem mem_computes {c : Compute} :
    (name, c) ∈ d.computes ↔ d.components.get? name = some (.compute c) := by
  rw [computes, mem_select]
  constructor
  · rintro ⟨c' | _ | _ | _, hc, h⟩ <;> cases h
    exact hc
  · exact fun h => ⟨_, h, rfl⟩

theorem mem_select_storage {s : Storage} :
    (name, s) ∈ d.select Component.storage? ↔ d.components.get? name = some (.storage s) := by
  rw [mem_select]
  constructor
  · rintro ⟨_ | s' | _ | _, hc, h⟩ <;> cases h
    exact hc
  · exact fun h => ⟨_, h, rfl⟩

theorem mem_select_connectionPoint {p : ConnectionPoint} :
    (name, p) ∈ d.select Component.connectionPoint?
      ↔ d.components.get? name = some (.connectionPoint p) := by
  rw [mem_select]
  constructor
  · rintro ⟨_ | _ | _ | p', hc, h⟩ <;> cases h
    exact hc
  · exact fun h => ⟨_, h, rfl⟩

theorem hasCompute_iff : d.hasCompute name ↔ ∃ c, d.components.get? name = some (.compute c) := by
  unfold hasCompute
  rcases d.components.get? name with _ | (_ | _ | _ | _) <;> simp

/-- The connection points bound to a compute component, by name. -/
def points (d : Descriptor) (compute : String) : List (String × ConnectionPoint) :=
  (d.select Component.connectionPoint?).filter fun p => p.2.binding = compute

/-- Filed by compute component, the connection points are all there, each once. -/
theorem flatMap_points_perm
    (h : ∀ p ∈ d.select Component.connectionPoint?, d.hasCompute p.2.binding) :
    (d.computes.flatMap fun e => d.points e.1).Perm (d.select Component.connectionPoint?) := by
  rw [← List.flatMap_map Prod.fst fun name => d.points name]
  refine flatMap_filter_perm (nodup_select _) fun p hp => ?_
  obtain ⟨c, hc⟩ := hasCompute_iff.1 (h p hp)
  exact List.mem_map.2 ⟨_, mem_computes.2 hc, rfl⟩

end Descriptor

namespace Compile

variable {d : Descriptor}

theorem of_filePoints_eq_ok {ps : List (String × ConnectionPoint)} {filed filed' : PointsByCompute}
    (h : filePoints d ps filed = .ok filed') :
    (∀ p ∈ ps, d.hasCompute p.2.binding) ∧ ∀ compute, (filed'.get? compute).getD []
      = (filed.get? compute).getD [] ++ ps.filter fun p => p.2.binding = compute := by
  induction ps generalizing filed with
  | nil =>
    cases h
    simp
  | cons p ps ih =>
    obtain ⟨name, p⟩ := p
    rw [filePoints] at h
    split at h
    · rename_i hc
      obtain ⟨hall, hget⟩ := ih h
      refine ⟨List.forall_mem_cons.2 ⟨hc, hall⟩, fun compute => ?_⟩
      rw [hget, Table.get?_put]
      by_cases hb : compute = p.binding
      · simp [hb]
      · simp [hb, Ne.symm hb]
    · cases h

theorem of_pointsByCompute {filed : PointsByCompute} (h : pointsByCompute d = .ok filed) :
    (∀ p ∈ d.select Component.connectionPoint?, d.hasCompute p.2.binding)
      ∧ ∀ compute, (filed.get? compute).getD [] = (d.points compute).mergeSort pointLe := by
  obtain ⟨unsorted, hu, h⟩ := bind_eq_ok_iff.1 h
  cases h
  obtain ⟨hall, hget⟩ := of_filePoints_eq_ok hu
  refine ⟨hall, fun compute => ?_⟩
  have hpoints := hget compute
  rw [Table.get?_empty, Option.getD_none, List.nil_append] at hpoints
  rw [Descriptor.points, ← hpoints, Table.get?_map]
  rcases unsorted.get? compute with _ | ps
  · exact (List.mergeSort_nil).symm
  · rfl

end Compile

end Provision
