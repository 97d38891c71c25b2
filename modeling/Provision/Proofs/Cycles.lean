import Provision.Acyclic
import Mathlib.Logic.Relation
import Mathlib.Data.Finset.Card
import Mathlib.Data.List.Basic

/-!
# The residue holds the cycles

Every name in the residue has a target there (`exists_target_of_mem_residue`), and a set of names
each of which has a target in the set is never peeled (`mem_residue_of_closed`). So the residue is
empty exactly if the relation has no cycle (`onCycle?_eq_none_iff`), and a walk in it that has taken
as many steps as it has names is on a cycle (`cycle_of_onCycle?`).
-/

namespace Provision.Acyclic

variable {targets : String → List String}

/-- One name has the other among its targets. -/
def Leads (targets : String → List String) (n t : String) : Prop := t ∈ targets n

theorem mem_peel {names : List String} {n : String} :
    n ∈ peel targets names ↔ n ∈ names ∧ ∃ t, Leads targets n t ∧ t ∈ names := by
  simp [peel, Leads]

theorem peel_of_length_le {names : List String}
    (h : ¬ (peel targets names).length < names.length) : peel targets names = names :=
  List.filter_eq_self.2 <| by
    have hlen := length_peel_le targets names
    exact List.length_filter_eq_length_iff.1 (show (peel targets names).length = _ by omega)

theorem exists_target_of_mem_residue {names : List String} {n : String}
    (h : n ∈ residue targets names) : ∃ t, Leads targets n t ∧ t ∈ residue targets names := by
  fun_induction residue targets names with
  | case1 names _ ih => exact ih h
  | case2 names hlen =>
    rw [← peel_of_length_le hlen] at h
    exact (mem_peel.1 h).2

/-- Names each of which has a target among them stay. -/
theorem mem_residue_of_closed {S : String → Prop}
    (hS : ∀ n, S n → ∃ t, Leads targets n t ∧ S t) {names : List String}
    (hn : ∀ n, S n → n ∈ names) {n : String} (h : S n) : n ∈ residue targets names := by
  fun_induction residue targets names with
  | case1 names _ ih =>
    refine ih fun m hm => mem_peel.2 ⟨hn m hm, ?_⟩
    obtain ⟨t, hmt, ht⟩ := hS m hm
    exact ⟨t, hmt, hn t ht⟩
  | case2 names _ => exact hn n h

/-- A name on a cycle has a target on a cycle. -/
theorem exists_target_on_cycle {n : String} (h : Relation.TransGen (Leads targets) n n) :
    ∃ t, Leads targets n t ∧ Relation.TransGen (Leads targets) t t := by
  obtain ⟨t, hnt, htn⟩ := Relation.TransGen.head'_iff.1 h
  exact ⟨t, hnt, Relation.TransGen.tail' htn hnt⟩

section Walk

variable (targets) in
/-- Where a walk inside the residue has come to after so many steps. -/
def walk (names : List String) (start : String) (steps : Nat) : String :=
  Nat.repeat (next targets (residue targets names)) steps start

variable {names : List String} {start : String}

theorem next_of_mem {n : String} (h : n ∈ residue targets names) :
    Leads targets n (next targets (residue targets names) n)
      ∧ next targets (residue targets names) n ∈ residue targets names := by
  obtain ⟨t, hnt, ht⟩ := exists_target_of_mem_residue h
  unfold next
  rcases hf : (targets n).find? fun t => (residue targets names).contains t with _ | u
  · exact absurd ht (by simpa using List.find?_eq_none.1 hf t hnt)
  · exact ⟨List.mem_of_find?_eq_some hf, by simpa using List.find?_some hf⟩

theorem walk_mem (h : start ∈ residue targets names) :
    ∀ k, walk targets names start k ∈ residue targets names
  | 0 => h
  | k + 1 => (next_of_mem (walk_mem h k)).2

theorem walk_leads (h : start ∈ residue targets names) (k : Nat) :
    Leads targets (walk targets names start k) (walk targets names start (k + 1)) :=
  (next_of_mem (walk_mem h k)).1

theorem walk_reaches (h : start ∈ residue targets names) (k : Nat) :
    ∀ l, Relation.TransGen (Leads targets) (walk targets names start k)
      (walk targets names start (k + l + 1))
  | 0 => .single (walk_leads h k)
  | l + 1 => .tail (walk_reaches h k l) (walk_leads h (k + l + 1))

/-- Once a walk has come back, it goes round. -/
theorem walk_shift {i j : Nat} (h : walk targets names start i = walk targets names start j) :
    ∀ k, walk targets names start (i + k) = walk targets names start (j + k)
  | 0 => h
  | k + 1 => congrArg (next targets (residue targets names)) (walk_shift h k)

/-- A walk with as many steps as the residue has names has been somewhere twice. -/
theorem walk_repeats (h : start ∈ residue targets names) :
    ∃ i j, i < j ∧ j ≤ (residue targets names).length
      ∧ walk targets names start i = walk targets names start j := by
  have hcard : (residue targets names).toFinset.card
      < (Finset.range ((residue targets names).length + 1)).card := by
    rw [Finset.card_range]
    exact Nat.lt_succ_of_le (List.toFinset_card_le _)
  obtain ⟨i, hi, j, hj, hij, heq⟩ := Finset.exists_ne_map_eq_of_card_lt_of_maps_to hcard
    (f := walk targets names start) fun k _ => by simpa using walk_mem h k
  simp only [Finset.mem_range] at hi hj
  rcases Nat.lt_or_gt_of_ne hij with hlt | hlt
  · exact ⟨i, j, hlt, by omega, heq⟩
  · exact ⟨j, i, hlt, by omega, heq.symm⟩

theorem walk_on_cycle (h : start ∈ residue targets names) :
    Relation.TransGen (Leads targets)
      (walk targets names start (residue targets names).length)
      (walk targets names start (residue targets names).length) := by
  obtain ⟨i, j, hij, hj, heq⟩ := walk_repeats h
  set n := (residue targets names).length
  have hround := walk_reaches h n (j - i - 1)
  have hback : walk targets names start (n + (j - i - 1) + 1) = walk targets names start n := by
    have := walk_shift heq (n - i)
    rw [show i + (n - i) = n by omega, show j + (n - i) = n + (j - i - 1) + 1 by omega] at this
    exact this.symm
  rwa [hback] at hround

end Walk

theorem cycle_of_onCycle? {names : List String} {n : String} (h : onCycle? targets names = some n) :
    Relation.TransGen (Leads targets) n n := by
  unfold onCycle? at h
  rcases hr : residue targets names with _ | ⟨start, rest⟩
  · rw [hr] at h
    simp at h
  · have hstart : start ∈ residue targets names := by
      rw [hr]
      exact List.mem_cons_self
    have hn : n = walk targets names start (residue targets names).length := by
      simp only [hr, List.head?_cons, Option.map_some, Option.some.injEq] at h
      rw [← h]
      unfold walk
      rw [hr]
    rw [hn]
    exact walk_on_cycle hstart

/-- The search comes up empty exactly if no name is on a cycle, as long as only listed names have
targets. -/
theorem onCycle?_eq_none_iff {names : List String} (hn : ∀ n t, Leads targets n t → n ∈ names) :
    onCycle? targets names = none ↔ ∀ n, ¬ Relation.TransGen (Leads targets) n n := by
  constructor
  · intro h n hc
    have hmem : n ∈ residue targets names := by
      refine mem_residue_of_closed (fun _ => exists_target_on_cycle) (fun m hm => ?_) hc
      obtain ⟨t, hmt, -⟩ := exists_target_on_cycle hm
      exact hn m t hmt
    unfold onCycle? at h
    rw [Option.map_eq_none_iff, List.head?_eq_none_iff] at h
    rw [h] at hmem
    simp at hmem
  · intro h
    rcases hc : onCycle? targets names with _ | n
    · rfl
    · exact absurd (cycle_of_onCycle? hc) (h n)

end Provision.Acyclic
