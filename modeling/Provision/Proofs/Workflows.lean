import Provision.Workflow
import Provision.Proofs.Cycles
import Provision.Proofs.Returns
import Provision.Proofs.Tables

/-!
# Workflows that hang together

A workflow passes the check exactly if its tasks start only tasks of it and none starts itself
again (`validate_eq_ok_iff`). What starts what is said entry by entry, whatever the conditions are,
and a workflow that does not pass is refused for something that is really wrong with it
(`validate_decides`).

Tasks listed so that each is started before it stands in the list, and starts only what stands after
it, hang together even more closely: the first of them starts all the others
(`Connected.of_runs`).
-/

namespace Provision

open Acyclic Relation

/-- An entry may start a task: always, or under some condition. -/
inductive Successor.MayStart : Successor → String → Prop
  | always (task : String) : MayStart (.always task) task
  | when {conditions : Table String} {task condition : String} :
    conditions.get? task = some condition → MayStart (.when conditions) task

theorem Successor.mem_tasks {entry : Successor} {task : String} :
    task ∈ entry.tasks ↔ entry.MayStart task := by
  rcases entry with s | conditions
  · rw [tasks, List.mem_singleton]
    constructor
    · rintro rfl
      exact .always task
    · rintro ⟨⟩
      rfl
  · rw [tasks, Table.mem_names, Table.contains_iff]
    constructor
    · rintro ⟨condition, h⟩
      exact .when h
    · rintro ⟨⟩
      exact ⟨_, ‹_›⟩

namespace Workflow

variable {w : Workflow}

theorem leads_iff {name s : String} :
    Leads w.successors name s ↔ ∃ t, w.tasks.get? name = some t ∧ s ∈ t.successors := by
  unfold Leads successors
  rcases w.tasks.get? name with _ | t
  · simp
  · simp

/-- An unknown task comes first; cycles are looked for only if there is none. -/
theorem fault?_cases (w : Workflow) :
    (∃ name s, w.fault? = some (.unknownSuccessor name s) ∧ Leads w.successors name s
        ∧ ¬ w.tasks.contains s)
      ∨ (∀ name s, Leads w.successors name s → w.tasks.contains s)
        ∧ w.fault? = (onCycle? w.successors w.tasks.names).map .cycle := by
  unfold fault?
  generalize hu : List.findSome? _ w.tasks.entries = unknown
  rcases unknown with _ | ⟨name, s⟩
  · refine .inr ⟨fun name s h => ?_, rfl⟩
    obtain ⟨t, ht, hs⟩ := leads_iff.1 h
    have hnone := List.findSome?_eq_none_iff.1 hu (name, t) (Table.mem_entries.2 ht)
    simpa using List.find?_eq_none.1 (Option.map_eq_none_iff.1 hnone) s hs
  · obtain ⟨⟨_, t⟩, ht, hfound⟩ := List.exists_of_findSome?_eq_some hu
    obtain ⟨s', hs', heq⟩ := Option.map_eq_some_iff.1 hfound
    cases heq
    have hmem := List.mem_of_find?_eq_some hs'
    exact .inl ⟨name, s, rfl, leads_iff.2 ⟨t, Table.mem_entries.1 ht, hmem⟩,
      by simpa using List.find?_some hs'⟩

theorem validate_eq_ok_iff_fault? : w.validate = .ok () ↔ w.fault? = none := by
  unfold validate
  rcases w.fault? with _ | f
  · simp
  · simp

/-- A workflow passes exactly if all that its tasks start are tasks of it, and none of them comes to
start itself again. -/
theorem validate_eq_ok_iff :
    w.validate = .ok () ↔
      (∀ name s, Leads w.successors name s → w.tasks.contains s = true)
        ∧ ∀ name, ¬ TransGen (Leads w.successors) name name := by
  have hn : ∀ name s, Leads w.successors name s → name ∈ w.tasks.names := by
    intro name s h
    obtain ⟨t, ht, -⟩ := leads_iff.1 h
    exact Table.mem_names.2 (Table.contains_of_get? ht)
  rw [validate_eq_ok_iff_fault?, ← onCycle?_eq_none_iff hn]
  rcases fault?_cases w with ⟨name, s, hf, hs, hno⟩ | ⟨hknown, hf⟩
  · rw [hf]
    exact iff_of_false (by simp) fun h => hno (h.1 name s hs)
  · rw [hf, Option.map_eq_none_iff, and_iff_right hknown]

section Faults

variable (w) in
/-- The one task may start the other: an entry of its successors may. -/
def Starts (name s : String) : Prop :=
  ∃ t, w.tasks.get? name = some t ∧ ∃ entry ∈ t.onSuccess, entry.MayStart s

theorem leads_successors : Leads w.successors = w.Starts := by
  funext name s
  refine propext (leads_iff.trans ?_)
  simp only [Task.successors, List.mem_flatMap, Successor.mem_tasks, Starts]

variable (w) in
/-- What the fault says is so. A cycle is looked for only among tasks of the workflow. -/
inductive HasFault : WorkflowFault → Prop
  | unknownSuccessor {name s : String} :
    w.Starts name s → ¬ w.tasks.contains s → HasFault (.unknownSuccessor name s)
  | cycle {name : String} :
    (∀ name s, w.Starts name s → w.tasks.contains s) → TransGen w.Starts name name →
      HasFault (.cycle name)

theorem hasFault_of_fault? {f : WorkflowFault} (h : w.fault? = some f) : w.HasFault f := by
  rcases fault?_cases w with ⟨name, s, hf, hs, hno⟩ | ⟨hknown, hf⟩
  · rw [leads_successors] at hs
    rw [hf] at h
    cases h
    exact .unknownSuccessor hs hno
  · rw [hf] at h
    obtain ⟨name, hc, rfl⟩ := Option.map_eq_some_iff.1 h
    have hcycle := cycle_of_onCycle? hc
    rw [leads_successors] at hknown hcycle
    exact .cycle hknown hcycle

theorem hasFault_of_validate {f : WorkflowFault} (h : w.validate = .error f) : w.HasFault f := by
  unfold validate at h
  split at h
  · rename_i f' hf
    cases h
    exact hasFault_of_fault? hf
  · cases h

/-- The check is sound and complete. A workflow passes exactly if every task that an entry may start
is one of the workflow and no task comes to start itself again, be it at once. A workflow that does
not pass is refused as an invalid workflow, for a fault that is really there. -/
theorem validate_decides (w : Workflow) :
    (w.validate = .ok () ↔
      (∀ name s, w.Starts name s → w.tasks.contains s) ∧ ∀ name, ¬ TransGen w.Starts name name)
    ∧ ∀ fault, w.validate.mapError Fault.invalidWorkflow = .error fault →
      ∃ flaw, fault = .invalidWorkflow flaw ∧ w.HasFault flaw := by
  refine ⟨?_, fun fault h => ?_⟩
  · rw [← leads_successors]
    exact validate_eq_ok_iff
  · obtain ⟨flaw, hflaw, rfl⟩ := mapError_eq_error_iff.1 h
    exact ⟨flaw, rfl, hasFault_of_validate hflaw⟩

end Faults

variable (w) in
/-- The tasks start only tasks, none starts itself again, and one of them, which no other starts,
starts all of them in the end. -/
structure Connected : Prop where
  known : ∀ name s, Leads w.successors name s → w.tasks.contains s = true
  acyclic : ∀ name, ¬ TransGen (Leads w.successors) name name
  oneStart : ∃ start,
    (∀ name, (w.tasks.contains name = true ∧ ∀ before, ¬ Leads w.successors before name)
      ↔ name = start)
    ∧ ∀ name, w.tasks.contains name = true → ReflTransGen (Leads w.successors) start name

theorem Connected.validate (h : w.Connected) : w.validate = .ok () :=
  validate_eq_ok_iff.2 ⟨h.known, h.acyclic⟩

section Runs

/-- The tasks are listed in an order to run them in: each is started before its turn comes, and it
starts only tasks whose turn is still to come. -/
def Runs : (started : List String) → List (String × Task) → Prop
  | _, [] => True
  | started, (name, t) :: rest =>
    name ∈ started ∧ (∀ s ∈ t.successors, s ∈ Entries.names rest)
      ∧ Runs (started ++ t.successors) rest

variable {ts : List (String × Task)} {started : List String} {name s : String} {t : Task}

theorem Runs.mem_tail : ∀ {ts : List (String × Task)} {started : List String},
    Runs started ts → (name, t) ∈ ts → s ∈ t.successors → s ∈ (Entries.names ts).tail
  | (k, u) :: rest, _, ⟨_, hlater, hrest⟩, ht, hs => by
    rcases List.mem_cons.1 ht with heq | ht
    · cases heq
      exact hlater s hs
    · exact List.mem_of_mem_tail (hrest.mem_tail ht hs)

theorem Runs.mem_names (h : Runs started ts) (ht : (name, t) ∈ ts) (hs : s ∈ t.successors) :
    s ∈ Entries.names ts :=
  List.mem_of_mem_tail (h.mem_tail ht hs)

/-- What a task starts stands after it. -/
theorem Runs.idxOf_lt : ∀ {ts : List (String × Task)} {started : List String},
    Runs started ts → (Entries.names ts).Nodup → (name, t) ∈ ts → s ∈ t.successors →
      (Entries.names ts).idxOf name < (Entries.names ts).idxOf s
  | (k, u) :: rest, _, ⟨_, hlater, hrest⟩, hn, ht, hs => by
    simp only [Entries.names, List.map_cons, List.nodup_cons] at hn hlater ⊢
    have hafter : s ∈ rest.map Prod.fst := by
      rcases List.mem_cons.1 ht with heq | ht
      · cases heq
        exact hlater s hs
      · exact hrest.mem_names ht hs
    have hs' : k ≠ s := fun h => hn.1 (h ▸ hafter)
    rw [List.idxOf_cons_ne _ hs']
    rcases List.mem_cons.1 ht with heq | ht
    · cases heq
      rw [List.idxOf_cons_self]
      exact Nat.succ_pos _
    · have hk : k ≠ name := fun h => hn.1 (h ▸ List.mem_map_of_mem ht)
      rw [List.idxOf_cons_ne _ hk]
      exact Nat.succ_lt_succ (hrest.idxOf_lt hn.2 ht hs)

/-- Whatever leads to what is started leads to all the tasks. -/
theorem Runs.reaches {r : String → String → Prop} {start : String} :
    ∀ {ts : List (String × Task)} {started : List String}, Runs started ts →
      (∀ name t s, (name, t) ∈ ts → s ∈ t.successors → r name s) →
      (∀ s ∈ started, ReflTransGen r start s) →
      ∀ name ∈ Entries.names ts, ReflTransGen r start name
  | (k, u) :: rest, started, ⟨hk, _, hrest⟩, hr, hstarted, name, hname => by
    rcases List.mem_cons.1 hname with rfl | hname
    · exact hstarted _ hk
    · refine hrest.reaches (fun n t s ht => hr n t s (List.mem_cons_of_mem _ ht)) (fun s hs => ?_)
        name hname
      rcases List.mem_append.1 hs with hs | hs
      · exact hstarted s hs
      · exact (hstarted k hk).tail (hr k u s List.mem_cons_self hs)

/-- Tasks that can be run in the order in which they are listed hang together. -/
theorem Connected.of_runs {start : String} (htasks : w.tasks = .ofList ((start, t) :: ts))
    (hn : (Entries.names ((start, t) :: ts)).Nodup) (h : Runs [start] ((start, t) :: ts)) :
    w.Connected := by
  have hmem : ∀ name u, w.tasks.get? name = some u ↔ (name, u) ∈ (start, t) :: ts := by
    intro name u
    rw [htasks, ← Table.mem_entries]
    exact (Entries.ofList_perm hn).mem_iff
  have hcontains : ∀ name, w.tasks.contains name = true ↔
      name ∈ Entries.names ((start, t) :: ts) := by
    intro name
    simp only [Table.contains_iff, hmem, List.mem_map, Prod.exists, exists_and_right,
      exists_eq_right]
  have hleads : ∀ name s, Leads w.successors name s ↔
      ∃ u, (name, u) ∈ (start, t) :: ts ∧ s ∈ u.successors := by
    intro name s
    rw [leads_iff]
    simp only [hmem]
  have hreach : ∀ name ∈ Entries.names ((start, t) :: ts),
      ReflTransGen (Leads w.successors) start name :=
    h.reaches (fun name u s hu hs => (hleads name s).2 ⟨u, hu, hs⟩) fun s hs => by
      rw [List.mem_singleton.1 hs]
  refine ⟨fun name s hs => ?_, fun name hc => ?_, start, fun name => ⟨fun hname => ?_, ?_⟩,
    fun name hname => hreach name ((hcontains name).1 hname)⟩
  · obtain ⟨u, hu, hs⟩ := (hleads name s).1 hs
    exact (hcontains s).2 (h.mem_names hu hs)
  · -- Along a cycle the places in the list would grow for ever.
    have hlt : ∀ a, TransGen (Leads w.successors) name a →
        (Entries.names ((start, t) :: ts)).idxOf name
          < (Entries.names ((start, t) :: ts)).idxOf a := by
      intro a ha
      induction ha with
      | single hab =>
        obtain ⟨u, hu, hs⟩ := (hleads _ _).1 hab
        exact h.idxOf_lt hn hu hs
      | tail _ hab ih =>
        obtain ⟨u, hu, hs⟩ := (hleads _ _).1 hab
        exact ih.trans (h.idxOf_lt hn hu hs)
    exact Nat.lt_irrefl _ (hlt name hc)
  · rcases ReflTransGen.cases_tail (hreach name ((hcontains name).1 hname.1)) with
      heq | ⟨before, -, hbefore⟩
    · exact heq
    · exact absurd hbefore (hname.2 before)
  · rintro rfl
    refine ⟨(hcontains name).2 List.mem_cons_self, fun before hbefore => ?_⟩
    obtain ⟨u, hu, hs⟩ := (hleads before name).1 hbefore
    exact (List.nodup_cons.1 hn).1 (h.mem_tail hu hs)

end Runs

end Workflow

end Provision
