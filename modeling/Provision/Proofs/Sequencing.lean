import Provision.Proofs.Runnable

/-!
# Maintenance steps are taken in order

The tasks of a workflow are filed by name, and the name of the tenth step comes before that of the
second. What order the steps are taken in is a matter of what starts what: from the first step on
each task starts one other without a condition, down to one that starts none (`Trail`). The way is
there for every list of actions (`trail_stepList`), and it comes by every task once, with the
actions in the order in which they were given (`maintenance_in_order`).
-/

namespace Provision.Workflow

/-- The tasks on the way from a task on, where each starts the next, and only the next, without a
condition, and the last starts none. -/
inductive Trail (w : Workflow) : String → List (String × Task) → Prop
  | last {name : String} {t : Task} :
    w.tasks.get? name = some t → t.onSuccess = [] → Trail w name [(name, t)]
  | next {name following : String} {t : Task} {later : List (String × Task)} :
    w.tasks.get? name = some t → t.onSuccess = [.always following] → Trail w following later →
      Trail w name ((name, t) :: later)

variable {w : Workflow} {target name : String}

/-- There is one way at most. -/
theorem Trail.unique {visited other : List (String × Task)} (h : w.Trail name visited)
    (h' : w.Trail name other) : visited = other := by
  induction h generalizing other with
  | last ht hnone =>
    cases h' with
    | last ht' _ =>
      rw [ht] at ht'
      cases ht'
      rfl
    | next ht' hone _ =>
      rw [ht] at ht'
      cases ht'
      rw [hnone] at hone
      cases hone
  | next ht hone _ ih =>
    cases h' with
    | last ht' hnone =>
      rw [ht] at ht'
      cases ht'
      rw [hnone] at hone
      cases hone
    | next ht' hone' hlater =>
      rw [ht] at ht'
      cases ht'
      rw [hone] at hone'
      cases hone'
      rw [ih hlater]

/-- The tasks of maintenance steps with these actions, the first of them at `position`. -/
def stepList (target : String) : Nat → List String → List (String × Task)
  | _, [] => []
  | position, action :: rest =>
    (stepName target position, stepTask target position action rest.isEmpty)
      :: stepList target (position + 1) rest

theorem stepTasks_texts (target : String) : ∀ (position : Nat) (actions : List String),
    stepTasks target position (actions.map .string) = .ok (stepList target position actions)
  | _, [] => rfl
  | position, action :: rest => by
    rw [List.map_cons, stepTasks_cons, stepTasks_texts target (position + 1) rest, List.isEmpty_map]
    rfl

theorem length_stepList : ∀ (position : Nat) (actions : List String),
    (stepList target position actions).length = actions.length
  | _, [] => rfl
  | position, _ :: rest => congrArg (· + 1) (length_stepList (position + 1) rest)

theorem actions_stepList : ∀ (position : Nat) (actions : List String),
    (stepList target position actions).map (fun e => e.2.action) = actions
  | _, [] => rfl
  | position, action :: rest => by
    rw [stepList, List.map_cons, actions_stepList (position + 1) rest]
    cases rest <;> rfl

theorem names_stepList (position : Nat) (actions : List String) :
    Entries.names (stepList target position actions)
      = (List.range' position actions.length).map (stepName target) := by
  have hnames := (runs_stepTasks (by simp) (stepTasks_texts target position actions)).1
  rwa [List.length_map] at hnames

/-- Different positions have different numerals, so no two steps share a name. -/
theorem stepName_inj {i j : Nat} : stepName target i = stepName target j ↔ i = j := by
  refine ⟨fun h => Numeral.ofNat_inj.1 ?_, congrArg _⟩
  simpa [stepName] using h

theorem nodup_stepList (position : Nat) (actions : List String) :
    (Entries.names (stepList target position actions)).Nodup := by
  rw [names_stepList]
  exact List.Nodup.map (fun _ _ => stepName_inj.1) List.nodup_range'

/-- The last task alone starts none, and the last one alone joins. -/
theorem last_of_mem_stepList : ∀ {position : Nat} {actions : List String} {e : String × Task},
    e ∈ stepList target position actions →
      ∃ i < actions.length, e.1 = stepName target (position + i)
        ∧ (e.2.onSuccess = [] ↔ i + 1 = actions.length)
        ∧ e.2.join = if i + 1 = actions.length then some "all" else none
  | position, action :: rest, e, h => by
    rcases List.mem_cons.1 h with rfl | h
    · refine ⟨0, Nat.succ_pos _, rfl, ?_⟩
      cases rest with
      | nil => simp [stepTask, Task.new]
      | cons next rest => simp [stepTask, Task.new]
    · obtain ⟨i, hi, hname, hstarts, hjoins⟩ := last_of_mem_stepList h
      refine ⟨i + 1, Nat.succ_lt_succ hi, ?_, ?_⟩
      · rw [hname, Nat.add_assoc, Nat.add_comm 1 i]
      · simpa only [List.length_cons, Nat.add_right_cancel_iff] using ⟨hstarts, hjoins⟩

/-- Where the tasks of the steps are filed, the way comes by them in the order of the steps. -/
theorem trail_stepList : ∀ {rest : List String} {position : Nat} {action : String},
    (∀ e ∈ stepList target position (action :: rest), w.tasks.get? e.1 = some e.2) →
      w.Trail (stepName target position) (stepList target position (action :: rest))
  | [], _, _, h => .last (h _ List.mem_cons_self) rfl
  | _ :: _, _, _, h => .next (h _ List.mem_cons_self) rfl
    (trail_stepList fun e he => h e (List.mem_cons_of_mem _ he))

/-- The workflow does the actions in turn: from the first step on there is one way, it comes by each
task of the workflow once, and the actions on it are these. Only the task of the last step starts
none, and only that one joins all. -/
structure TakesInTurn (w : Workflow) (target : String) (actions : List String) : Prop where
  size : w.tasks.size = actions.length
  trail : ∃ visited, w.Trail (stepName target 1) visited
    ∧ (∀ other, w.Trail (stepName target 1) other → other = visited)
    ∧ visited.Perm w.tasks.entries
    ∧ visited.map Prod.fst = (List.range' 1 actions.length).map (stepName target)
    ∧ visited.map (fun e => e.2.action) = actions
  last : ∀ name t, w.tasks.get? name = some t →
    (t.onSuccess = [] ↔ name = stepName target actions.length)
      ∧ t.join = if name = stepName target actions.length then some "all" else none

theorem takesInTurn_stepList {actions : List String} (hne : actions ≠ [])
    (h : w.tasks = .ofList (stepList target 1 actions)) : w.TakesInTurn target actions := by
  have hperm : w.tasks.entries.Perm (stepList target 1 actions) := by
    rw [h]
    exact Entries.ofList_perm (nodup_stepList 1 actions)
  have hfiled : ∀ e ∈ stepList target 1 actions, w.tasks.get? e.1 = some e.2 := by
    intro e he
    exact Table.mem_entries.1 (hperm.mem_iff.2 he)
  obtain ⟨action, rest, rfl⟩ := List.exists_cons_of_ne_nil hne
  have htrail := trail_stepList hfiled
  refine ⟨hperm.length_eq.trans (length_stepList 1 _), ⟨_, htrail, fun other hother => ?_,
    hperm.symm, names_stepList 1 _, actions_stepList 1 _⟩, fun name t ht => ?_⟩
  · exact hother.unique htrail
  · obtain ⟨i, -, hname, hstarts, hjoins⟩ :=
      last_of_mem_stepList (hperm.mem_iff.1 (Table.mem_entries.2 ht))
    have hlast : name = stepName target (action :: rest).length
        ↔ i + 1 = (action :: rest).length := by
      rw [show name = stepName target (1 + i) from hname, stepName_inj, Nat.add_comm]
    rw [hjoins]
    simp only [hstarts, hlast, and_self]

/-- The steps are taken in the order in which they are given, whatever else is among the parameters.
If one of them is no action, the first such one is named. -/
theorem maintenance_in_order (target : String) (others : Table Value) {steps : List Value}
    (hne : steps ≠ []) :
    (∀ actions : List String, steps = actions.map .string →
      ∃ w, build target .maintenance (others.put "steps" (.list steps)) = .ok w
        ∧ w.TakesInTurn target actions)
    ∧ ((∃ v ∈ steps, ¬ ∃ action, v = .string action) →
      ∃ i v, steps[i]? = some v ∧ (¬ ∃ action, v = .string action)
        ∧ (∀ j < i, ∃ action, steps[j]? = some (.string action))
        ∧ build target .maintenance (others.put "steps" (.list steps))
          = .error (.stepNoText (i + 1) v)) := by
  have hsteps : (others.put "steps" (.list steps)).get? "steps" = some (.list steps) := by
    rw [Table.get?_put, if_pos rfl]
  have hbuild := maintenance_of_steps hsteps hne target
    (target ++ "_" ++ WorkflowAction.word .maintenance)
  refine ⟨?_, ?_⟩
  · rintro actions rfl
    have hlist := stepTasks_texts target 1 actions
    rw [hlist] at hbuild
    have hvalid := (runnable_steps hne (by simp) hlist).connected.validate
    refine ⟨{ named (target ++ "_" ++ WorkflowAction.word .maintenance) with
      tasks := .ofList (stepList target 1 actions) }, ?_,
      takesInTurn_stepList (by simpa using hne) rfl⟩
    show (maintenance _ _ _ >>= _) = _
    rw [hbuild]
    show (validate _ >>= _) = _
    rw [hvalid]
    rfl
  · rintro ⟨v, hv, hno⟩
    rcases stepTasks_cases target 1 steps with ⟨htexts, -⟩ | ⟨i, v', hi, hno', hbefore, herr⟩
    · exact absurd (htexts v hv) hno
    · refine ⟨i, v', hi, hno', hbefore, ?_⟩
      show (maintenance _ _ _ >>= _) = _
      rw [hbuild, herr, Nat.add_comm 1 i]
      rfl

/-- More actions than there are numerals of one digit. -/
def elevenActions : List String :=
  ["drain", "stop", "snapshot", "fetch", "patch", "verify", "migrate", "start", "probe", "report",
   "restore"]

/-- The tenth task is filed before the second, and its turn comes after. -/
theorem elevenActions_in_order :
    stepName "web01" 10 < stepName "web01" 2
      ∧ ∃ w, build "web01" .maintenance
          (Table.empty.put "steps" (.list (elevenActions.map .string))) = .ok w
        ∧ w.TakesInTurn "web01" elevenActions :=
  ⟨by decide +kernel, (maintenance_in_order "web01" .empty (by decide)).1 elevenActions rfl⟩

end Provision.Workflow
