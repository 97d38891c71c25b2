import Provision.Scaling
import Provision.Proofs.Validity
import Mathlib.Data.Set.Basic
import Mathlib.Order.Bounds.Basic

/-!
# What the targets own

A name pulls along what its resource refers to, and every resource other than a server that refers
to it. The targets own what they pull along in any number of steps (`Owns`). The search that moves
names in from outside comes to exactly that (`mem_owned_iff`), and where all of it are resources it
is the least set closed under both rules (`isLeast_owns`).
-/

namespace Provision

namespace ResourceGraph

/-- `n` is pulled along by `m`: referred to by it, or attached to it without being a server. -/
def Pulls (g : ResourceGraph) (m n : String) : Prop :=
  g.Edge m n ∨ ∃ r, g.resource? n = some r ∧ r.type ≠ serverType ∧ r.RefersTo m

/-- The targets pull the name along, in any number of steps. -/
def Owns (g : ResourceGraph) (targets : List String) (n : String) : Prop :=
  ∃ t ∈ targets, Relation.ReflTransGen g.Pulls t n

/-- A set of names that holds the targets, every resource that one of its resources refers to, and
every resource other than a server that refers to one of it. -/
structure OwnershipClosed (g : ResourceGraph) (targets : List String) (S : Set String) : Prop where
  targets : ∀ t ∈ targets, t ∈ S
  referred : ∀ n ∈ S, ∀ t, g.Edge n t → g.contains t → t ∈ S
  attached : ∀ n r, g.resource? n = some r → r.type ≠ serverType →
    ∀ t ∈ S, r.RefersTo t → n ∈ S

variable {g : ResourceGraph} {targets : List String}

theorem owns_target {t : String} (h : t ∈ targets) : g.Owns targets t := ⟨t, h, .refl⟩

theorem Owns.pulls {m n : String} (h : g.Owns targets m) (hmn : g.Pulls m n) :
    g.Owns targets n := by
  obtain ⟨t, ht, hm⟩ := h
  exact ⟨t, ht, hm.tail hmn⟩

theorem Owns.edge {m n : String} (h : g.Owns targets m) (hmn : g.Edge m n) : g.Owns targets n :=
  h.pulls (.inl hmn)

/-! ## The search -/

theorem pulled_iff {names : List String} {n : String} :
    g.pulled names n = true ↔ ∃ m ∈ names, g.Pulls m n := by
  have hreferred : g.referredToBy names n = true ↔ ∃ m ∈ names, g.Edge m n := by
    simp [referredToBy, mem_targets]
  have hattached : g.attachedTo names n = true ↔
      ∃ m ∈ names, ∃ r, g.resource? n = some r ∧ r.type ≠ serverType ∧ r.RefersTo m := by
    unfold attachedTo
    rcases g.resource? n with _ | r
    · simp
    · simp only [Bool.and_eq_true, bne_iff_ne, ne_eq, List.any_eq_true, List.contains_iff_mem,
        Resource.mem_references, Option.some.injEq]
      constructor
      · rintro ⟨hr, m, hm, hn⟩
        exact ⟨m, hn, r, rfl, hr, hm⟩
      · rintro ⟨m, hn, _, rfl, hr, hm⟩
        exact ⟨hr, m, hm, hn⟩
  simp only [pulled, Bool.or_eq_true, hreferred, hattached, Pulls]
  constructor
  · rintro (⟨m, hm, h⟩ | ⟨m, hm, h⟩)
    · exact ⟨m, hm, .inl h⟩
    · exact ⟨m, hm, .inr h⟩
  · rintro ⟨m, hm, h | h⟩
    · exact .inl ⟨m, hm, h⟩
    · exact .inr ⟨m, hm, h⟩

theorem mem_gained {inside outside : List String} {n : String} :
    n ∈ g.gained inside outside ↔ n ∈ outside ∧ ∃ m ∈ inside, g.Pulls m n := by
  simp [gained, pulled_iff]

theorem mem_spared {inside outside : List String} {n : String} :
    n ∈ g.spared inside outside ↔ n ∈ outside ∧ ¬ ∃ m ∈ inside, g.Pulls m n := by
  unfold spared
  rw [List.mem_filter, ← pulled_iff]
  simp

theorem unpulled_subset {inside outside : List String} {n : String}
    (h : n ∈ g.unpulled inside outside) : n ∈ outside := by
  fun_induction unpulled g inside outside with
  | case1 inside outside _ ih => exact (mem_spared.1 (ih h)).1
  | case2 inside outside _ => exact h

/-- What leaves the outside is pulled along, in some number of steps, by the names first inside. -/
theorem reached_of_not_unpulled {inside outside : List String} {n : String} (hn : n ∈ outside)
    (h : n ∉ g.unpulled inside outside) :
    ∃ m ∈ inside, Relation.ReflTransGen g.Pulls m n := by
  fun_induction unpulled g inside outside with
  | case1 inside outside _ ih =>
    by_cases hp : ∃ m ∈ inside, g.Pulls m n
    · obtain ⟨m, hm, hmn⟩ := hp
      exact ⟨m, hm, .single hmn⟩
    · obtain ⟨m, hm, hmn⟩ := ih (mem_spared.2 ⟨hn, hp⟩) h
      rcases List.mem_append.1 hm with hm | hm
      · exact ⟨m, hm, hmn⟩
      · obtain ⟨-, m', hm', hpull⟩ := mem_gained.1 hm
        exact ⟨m', hm', .head hpull hmn⟩
  | case2 inside outside _ => exact absurd hn h

/-- What stays outside is pulled along neither by the names first inside nor by what joined them. -/
theorem not_pulls_unpulled {inside outside : List String} {m n : String}
    (hn : n ∈ g.unpulled inside outside)
    (hm : m ∈ inside ∨ (m ∈ outside ∧ m ∉ g.unpulled inside outside)) : ¬ g.Pulls m n := by
  fun_induction unpulled g inside outside with
  | case1 inside outside _ ih =>
    refine ih hn ?_
    rcases hm with hm | ⟨hm, hout⟩
    · exact .inl (List.mem_append_left _ hm)
    · by_cases hp : ∃ m' ∈ inside, g.Pulls m' m
      · exact .inl (List.mem_append_right _ (mem_gained.2 ⟨hm, hp⟩))
      · exact .inr ⟨mem_spared.2 ⟨hm, hp⟩, hout⟩
  | case2 inside outside hlen =>
    rcases hm with hm | ⟨hm, hout⟩
    · have hle : (g.spared inside outside).length ≤ outside.length := List.length_filter_le ..
      have hall := List.length_filter_eq_length_iff.1
        (show (g.spared inside outside).length = outside.length by omega) n hn
      intro hmn
      have := pulled_iff.2 ⟨m, hm, hmn⟩
      simp [this] at hall
    · exact absurd hm hout

theorem mem_mentioned {n : String} :
    n ∈ g.mentioned ↔ g.contains n ∨ ∃ m, g.Edge m n := by
  unfold mentioned
  rw [NameSet.mem_names_ofNames, List.mem_append, Table.mem_names]
  refine or_congr Iff.rfl ⟨fun h => ?_, ?_⟩
  · obtain ⟨⟨m, r⟩, he, hn⟩ := List.mem_flatMap.1 h
    exact ⟨m, r, Table.mem_entries.1 he, Resource.mem_references.1 hn⟩
  · rintro ⟨m, r, hr, hn⟩
    exact List.mem_flatMap.2 ⟨(m, r), Table.mem_entries.2 hr, Resource.mem_references.2 hn⟩

theorem mem_mentioned_of_pulls {m n : String} (h : g.Pulls m n) : n ∈ g.mentioned := by
  rcases h with h | ⟨r, hr, -⟩
  · exact mem_mentioned.2 (.inr ⟨m, h⟩)
  · exact mem_mentioned.2 (.inl (Table.contains_of_get? hr))

/-- The search ends with what the targets own. -/
theorem mem_owned_iff (ht : ∀ t ∈ targets, g.contains t) {n : String} :
    n ∈ g.owned targets ↔ g.Owns targets n := by
  set outside := g.mentioned.filter fun n => !targets.contains n with hout
  have hmem : ∀ m, m ∈ outside ↔ m ∈ g.mentioned ∧ m ∉ targets := by
    intro m
    simp [hout]
  have howned : ∀ m, m ∈ g.owned targets ↔
      m ∈ g.mentioned ∧ m ∉ g.unpulled targets outside := by
    intro m
    simp [owned, hout]
  constructor
  · intro h
    obtain ⟨hn, hun⟩ := (howned n).1 h
    by_cases hnt : n ∈ targets
    · exact owns_target hnt
    · exact reached_of_not_unpulled ((hmem n).2 ⟨hn, hnt⟩) hun
  · rintro ⟨t, htt, h⟩
    induction h with
    | refl =>
      refine (howned t).2 ⟨mem_mentioned.2 (.inl (ht t htt)), fun hun => ?_⟩
      exact ((hmem t).1 (unpulled_subset hun)).2 htt
    | @tail m n _ hmn ih =>
      obtain ⟨hm, hmun⟩ := (howned m).1 ih
      refine (howned n).2 ⟨mem_mentioned_of_pulls hmn, fun hun => ?_⟩
      refine not_pulls_unpulled hun ?_ hmn
      by_cases hmt : m ∈ targets
      · exact .inl hmt
      · exact .inr ⟨(hmem m).2 ⟨hm, hmt⟩, hmun⟩

/-! ## The least closed set -/

theorem ownershipClosed_owns : g.OwnershipClosed targets {n | g.Owns targets n} where
  targets _ h := owns_target h
  referred _ hn _ hnt _ := Owns.edge hn hnt
  attached _ r hr hs _ ht hrt := Owns.pulls ht (.inr ⟨r, hr, hs, hrt⟩)

/-- If no name that is owned dangles, what is owned is the least closed set. -/
theorem isLeast_owns (h : ∀ n, g.Owns targets n → g.contains n) :
    IsLeast {S | g.OwnershipClosed targets S} {n | g.Owns targets n} := by
  refine ⟨ownershipClosed_owns, fun S hS n hn => ?_⟩
  obtain ⟨t, ht, hn⟩ := hn
  induction hn with
  | refl => exact hS.targets t ht
  | @tail m n hm hmn ih =>
    rcases hmn with hedge | ⟨r, hr, hs, hrm⟩
    · exact hS.referred m ih n hedge (h n ⟨t, ht, hm.tail (.inl hedge)⟩)
    · exact hS.attached n r hr hs m ih hrm

end ResourceGraph

end Provision
