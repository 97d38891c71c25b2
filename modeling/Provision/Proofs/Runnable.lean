import Provision.Workflow.Build
import Provision.Proofs.Numerals
import Provision.Proofs.Returns
import Provision.Proofs.Workflows

/-!
# Standard workflows can be run

Each of the four workflows is listed here in an order to run it in, so that it hangs together
whatever the target and the parameters are. What remains to be refused are parameters of the wrong
form, and `build` refuses all of those and no others (`build_outcome`).
-/

namespace Provision

open Workflow

/-- A parameter that is not given, or is a whole number of sixty-four bits without a sign. -/
def CountIfGiven (parameters : Table Value) (key : String) : Prop :=
  ∀ v, parameters.get? key = some v → ∃ n : Nat, v = .int n ∧ n < Nat.pow 2 64

namespace WorkflowAction

/-- The parameters are of the form that the action asks for. -/
def Accepts : WorkflowAction → Table Value → Prop
  | .deploy, ps => CountIfGiven ps "retry_count" ∧ CountIfGiven ps "retry_delay"
  | .teardown, ps => ps.contains "workload_id" = true
  | .healthProbe, ps =>
    ps.contains "address" = true
      ∧ CountIfGiven ps "retry_count" ∧ CountIfGiven ps "retry_delay"
  | .maintenance, ps =>
    ∃ steps, ps.get? "steps" = some (.list steps) ∧ steps ≠ []
      ∧ ∀ step ∈ steps, ∃ action, step = .string action

/-- The fault is one that the parameters of the action have. -/
def Blames (action : WorkflowAction) (ps : Table Value) : WorkflowFault → Prop
  | .unknownSuccessor _ _ => False
  | .cycle _ => False
  | .noCount key v =>
    action ∈ [.deploy, .healthProbe] ∧ key ∈ ["retry_count", "retry_delay"]
      ∧ ps.get? key = some v ∧ ¬ ∃ n : Nat, v = .int n ∧ n < Nat.pow 2 64
  | .missing word key =>
    word = action.word
      ∧ (action, key) ∈
        [(.teardown, "workload_id"), (.healthProbe, "address"), (.maintenance, "steps")]
      ∧ ps.get? key = none
  | .noSteps =>
    action = .maintenance
      ∧ ∃ v, ps.get? "steps" = some v ∧ ¬ ∃ steps, v = .list steps ∧ steps ≠ []
  | .stepNoText position v =>
    action = .maintenance
      ∧ ∃ steps, ps.get? "steps" = some (.list steps) ∧ 0 < position
        ∧ steps[position - 1]? = some v ∧ ¬ ∃ action, v = .string action

end WorkflowAction

namespace Workflow

open Acyclic WorkflowAction

variable {target key : String} {ps : Table Value} {w : Workflow}

/-- The workflow is named for its action, so are its tasks for the target; it hangs together, and it
comes with the input it declares. -/
structure Runnable (w : Workflow) (target : String) (action : WorkflowAction) : Prop where
  name : w.name = target ++ "_" ++ action.word
  tasks : ∀ name, w.tasks.contains name = true → ∃ rest, name = target ++ "_" ++ rest
  connected : w.Connected
  input : w.inputValues.names = w.input

section Parameters

theorem asNat64?_eq_some_iff {v : Value} {n : Nat} :
    v.asNat64? = some n ↔ v = .int n ∧ n < Nat.pow 2 64 := by
  cases v with
  | int i =>
    simp only [Value.asNat64?, Nat.pow_eq, Option.ite_none_right_eq_some, Option.some.injEq,
      Value.int.injEq]
    omega
  | _ => simp [Value.asNat64?]

theorem count_cases (ps : Table Value) (key : String) (dflt : Nat) :
    (CountIfGiven ps key ∧ ∃ n, count ps key dflt = .ok n)
      ∨ ∃ v, ps.get? key = some v ∧ (¬ ∃ n : Nat, v = .int n ∧ n < Nat.pow 2 64)
        ∧ count ps key dflt = .error (.noCount key v) := by
  unfold count CountIfGiven
  rcases hv : ps.get? key with _ | v
  · exact .inl ⟨by simp, dflt, rfl⟩
  · rcases hn : v.asNat64? with _ | n
    · refine .inr ⟨v, rfl, ?_, by simp only [hn]⟩
      rintro ⟨n, h⟩
      rw [asNat64?_eq_some_iff.2 h] at hn
      cases hn
    · refine .inl ⟨?_, n, by simp only [hn]⟩
      rintro _ ⟨⟩
      exact ⟨n, asNat64?_eq_some_iff.1 hn⟩

theorem not_countIfGiven {v : Value} (hv : ps.get? key = some v)
    (hn : ¬ ∃ n : Nat, v = .int n ∧ n < Nat.pow 2 64) : ¬ CountIfGiven ps key :=
  fun h => hn (h v hv)

theorem requiredParameter_cases (ps : Table Value) (key : String) (action : WorkflowAction) :
    (∃ v, ps.get? key = some v ∧ requiredParameter ps key action = .ok v)
      ∨ ps.get? key = none
        ∧ requiredParameter ps key action = .error (.missing action.word key) := by
  unfold requiredParameter
  rcases ps.get? key with _ | v
  · exact .inr ⟨rfl, rfl⟩
  · exact .inl ⟨v, rfl, rfl⟩

end Parameters

/-- Building ends with a workflow that can be run if the parameters have the right form, and with a
fault that they have if not. -/
def Settles (target : String) (action : WorkflowAction) (ps : Table Value)
    (result : Except WorkflowFault Workflow) : Prop :=
  (action.Accepts ps ∧ ∃ w, result = .ok w ∧ w.Runnable target action)
    ∨ ¬ action.Accepts ps ∧ ∃ f, result = .error f ∧ action.Blames ps f

/-- A workflow of named tasks that can be run in the order in which they are listed. -/
theorem Runnable.of_runs {action : WorkflowAction} {start : String} {t : Task}
    {listed ts : List (String × Task)} (hname : w.name = target ++ "_" ++ action.word)
    (htasks : w.tasks = .ofList listed) (hlisted : listed.Perm ((start, t) :: ts))
    (rests : List String) (hnodup : rests.Nodup)
    (hrests : Entries.names ((start, t) :: ts) = rests.map fun rest => target ++ "_" ++ rest)
    (hruns : Runs [start] ((start, t) :: ts)) (hinput : w.inputValues.names = w.input) :
    w.Runnable target action := by
  have hn : (Entries.names ((start, t) :: ts)).Nodup := by
    rw [hrests]
    exact hnodup.map fun a b h => by simpa using h
  rw [Table.ofList_eq_of_perm ((hlisted.map Prod.fst).nodup_iff.2 hn) hlisted] at htasks
  refine ⟨hname, fun name hc => ?_, .of_runs htasks hn hruns, hinput⟩
  obtain ⟨u, hu⟩ := Table.contains_iff.1 hc
  rw [htasks, ← Table.mem_entries] at hu
  have hmem := Entries.mem_names_of_mem ((Entries.ofList_perm hn).mem_iff.1 hu)
  rw [hrests] at hmem
  obtain ⟨rest, -, rfl⟩ := List.mem_map.1 hmem
  exact ⟨rest, rfl⟩

/-- The check passes whatever workflow can be run. -/
theorem Settles.validated {action : WorkflowAction} {result : Except WorkflowFault Workflow}
    (h : Settles target action ps result) :
    Settles target action ps (do let w ← result; w.validate; return w) := by
  rcases h with ⟨haccepts, w, rfl, hruns⟩ | ⟨hnot, f, rfl, hblames⟩
  · refine .inl ⟨haccepts, w, ?_, hruns⟩
    show (w.validate >>= _) = _
    rw [hruns.connected.validate]
    rfl
  · exact .inr ⟨hnot, f, rfl, hblames⟩

theorem settles_deploy (target : String) (ps : Table Value) :
    Settles target .deploy ps (deploy (target ++ "_" ++ word .deploy) target ps) := by
  unfold deploy
  rcases count_cases ps "retry_count" 10 with ⟨hcount, n, hn⟩ | ⟨v, hv, hno, herr⟩
  · rcases count_cases ps "retry_delay" 10 with ⟨hdelay, k, hk⟩ | ⟨v, hv, hno, herr⟩
    · refine .inl ⟨⟨hcount, hdelay⟩, _, by rw [hn, hk]; rfl, ?_⟩
      refine .of_runs rfl rfl (.refl _) ["create", "wait_active", "delete"] (by decide) ?_ ?_ rfl
      · simp [String.append_assoc]
      · simp [Runs, Task.successors, Successor.tasks, Task.new, Table.names, Table.ofList,
          Entries.ofList, Entries.put]
    · exact .inr ⟨fun h => not_countIfGiven hv hno h.2, .noCount "retry_delay" v,
        by rw [hn, herr]; rfl, by simp, by simp, hv, hno⟩
  · exact .inr ⟨fun h => not_countIfGiven hv hno h.1, .noCount "retry_count" v,
      by rw [herr]; rfl, by simp, by simp, hv, hno⟩

theorem settles_teardown (target : String) (ps : Table Value) :
    Settles target .teardown ps (teardown (target ++ "_" ++ word .teardown) target ps) := by
  unfold teardown
  rcases requiredParameter_cases ps "workload_id" .teardown with ⟨v, hv, hreq⟩ | ⟨hv, hreq⟩
  · refine .inl ⟨Table.contains_of_get? hv, _, by rw [hreq]; rfl, ?_⟩
    refine .of_runs rfl rfl (.refl _) ["delete"] (by decide) ?_ ?_ rfl
    · simp [String.append_assoc]
    · simp [Runs, Task.successors, Task.new]
  · refine .inr ⟨fun h => ?_, .missing _ "workload_id", by rw [hreq]; rfl, rfl, by simp, hv⟩
    simp [Accepts, Table.contains, hv] at h

theorem settles_healthProbe (target : String) (ps : Table Value) :
    Settles target .healthProbe ps
      (healthProbe (target ++ "_" ++ word .healthProbe) target ps) := by
  unfold healthProbe
  rcases requiredParameter_cases ps "address" .healthProbe with ⟨v, hv, hreq⟩ | ⟨hv, hreq⟩
  · have hcontains : ps.contains "address" = true := Table.contains_of_get? hv
    rcases count_cases ps "retry_count" 10 with ⟨hcount, n, hn⟩ | ⟨v, hv, hno, herr⟩
    · rcases count_cases ps "retry_delay" 10 with ⟨hdelay, k, hk⟩ | ⟨v, hv, hno, herr⟩
      · refine .inl ⟨⟨hcontains, hcount, hdelay⟩, _, by rw [hreq, hn, hk]; rfl, ?_⟩
        -- The probe is listed last and runs first.
        refine .of_runs rfl rfl (List.perm_append_singleton _ [_, _])
          ["probe", "mark_reachable", "mark_unreachable"] (by decide) ?_ ?_ rfl
        · simp [String.append_assoc]
        · simp [Runs, Task.successors, Successor.tasks, Task.new, mark, Table.names, Table.ofList,
            Entries.ofList, Entries.put]
      · exact .inr ⟨fun h => not_countIfGiven hv hno h.2.2, .noCount "retry_delay" v,
          by rw [hreq, hn, herr]; rfl, by simp, by simp, hv, hno⟩
    · exact .inr ⟨fun h => not_countIfGiven hv hno h.2.1, .noCount "retry_count" v,
        by rw [hreq, herr]; rfl, by simp, by simp, hv, hno⟩
  · refine .inr ⟨fun h => ?_, .missing _ "address", by rw [hreq]; rfl, rfl, by simp, hv⟩
    simp [Accepts, Table.contains, hv] at h

section Steps

variable {action : String} {steps : List Value} {ts : List (String × Task)} {position : Nat}

/-- The task of a step, which joins all if it is the last one and starts the next one if not. -/
def stepTask (target : String) (position : Nat) (action : String) (last : Bool) : Task :=
  if last then { Task.new action with join := some "all" }
  else { Task.new action with onSuccess := [.always (stepName target (position + 1))] }

theorem stepTask_successors {last : Bool} : (stepTask target position action last).successors
    = if last then [] else [stepName target (position + 1)] := by
  cases last <;> rfl

theorem stepTasks_cons (target : String) (position : Nat) (action : String) (rest : List Value) :
    stepTasks target position (.string action :: rest)
      = (stepTasks target (position + 1) rest).map fun ts =>
          (stepName target position, stepTask target position action rest.isEmpty) :: ts := by
  cases rest with
  | nil => rfl
  | cons step rest =>
    rw [stepTasks]
    · rcases stepTasks target (position + 1) (step :: rest) with f | ts
      · rfl
      · rfl
    · simp

theorem stepTasks_cases (target : String) : ∀ (position : Nat) (steps : List Value),
    ((∀ step ∈ steps, ∃ action, step = .string action)
        ∧ ∃ ts, stepTasks target position steps = .ok ts)
      ∨ ∃ i v, steps[i]? = some v ∧ (¬ ∃ action, v = .string action)
        ∧ (∀ j < i, ∃ action, steps[j]? = some (.string action))
        ∧ stepTasks target position steps = .error (.stepNoText (position + i) v)
  | _, [] => .inl ⟨by simp, [], rfl⟩
  | position, .string action :: rest => by
    rw [stepTasks_cons]
    rcases stepTasks_cases target (position + 1) rest with
      ⟨hrest, ts, hts⟩ | ⟨i, v, hi, hv, hbefore, herr⟩
    · refine .inl ⟨fun step hstep => ?_, _, by rw [hts]; rfl⟩
      rcases List.mem_cons.1 hstep with rfl | hstep
      · exact ⟨action, rfl⟩
      · exact hrest step hstep
    · refine .inr ⟨i + 1, v, hi, hv, fun j hj => ?_, ?_⟩
      · cases j with
        | zero => exact ⟨action, rfl⟩
        | succ j => exact hbefore j (Nat.lt_of_succ_lt_succ hj)
      · rw [herr, Nat.add_assoc, Nat.add_comm 1 i]
        rfl
  | position, .null :: _ => .inr ⟨0, .null, rfl, by simp, by simp, rfl⟩
  | position, .bool b :: _ => .inr ⟨0, .bool b, rfl, by simp, by simp, rfl⟩
  | position, .int i :: _ => .inr ⟨0, .int i, rfl, by simp, by simp, rfl⟩
  | position, .float x :: _ => .inr ⟨0, .float x, rfl, by simp, by simp, rfl⟩
  | position, .list vs :: _ => .inr ⟨0, .list vs, rfl, by simp, by simp, rfl⟩
  | position, .object ms :: _ => .inr ⟨0, .object ms, rfl, by simp, by simp, rfl⟩

/-- The steps from a position on are listed by position, and each starts the next. -/
theorem runs_stepTasks {steps : List Value}
    (hsteps : ∀ step ∈ steps, ∃ action, step = .string action) {position : Nat}
    {ts : List (String × Task)} (h : stepTasks target position steps = .ok ts) :
    Entries.names ts = (List.range' position steps.length).map (stepName target)
      ∧ ∀ started, (steps ≠ [] → stepName target position ∈ started) → Runs started ts := by
  induction steps generalizing position ts with
  | nil =>
    cases h
    exact ⟨rfl, fun _ _ => trivial⟩
  | cons step rest ih =>
    obtain ⟨action, rfl⟩ := hsteps step List.mem_cons_self
    rw [stepTasks_cons] at h
    rcases hts : stepTasks target (position + 1) rest with f | later
    · rw [hts] at h
      cases h
    rw [hts] at h
    cases h
    obtain ⟨hnames, hruns⟩ := ih (fun step hstep => hsteps step (List.mem_cons_of_mem _ hstep)) hts
    refine ⟨?_, fun started hstarted => ⟨hstarted (by simp), ?_, hruns _ fun hrest => ?_⟩⟩
    · rw [List.length_cons, List.range'_succ, List.map_cons, ← hnames]
      rfl
    · rw [stepTask_successors, hnames]
      cases rest with
      | nil => simp
      | cons v rest => simp [List.range'_succ]
    · rw [stepTask_successors]
      simp [hrest]

theorem runnable_steps {steps : List Value} (hne : steps ≠ [])
    (hsteps : ∀ step ∈ steps, ∃ action, step = .string action)
    (h : stepTasks target 1 steps = .ok ts) :
    ({ named (target ++ "_" ++ word .maintenance) with tasks := .ofList ts } : Workflow).Runnable
      target .maintenance := by
  obtain ⟨hnames, hruns⟩ := runs_stepTasks hsteps h
  obtain ⟨k, hk⟩ := Nat.exists_eq_succ_of_ne_zero (List.length_eq_zero_iff.not.2 hne)
  rw [hk] at hnames
  rcases ts with _ | ⟨⟨start, t⟩, later⟩
  · simp [List.range'_succ] at hnames
  obtain rfl : start = stepName target 1 := by
    rw [List.range'_succ] at hnames
    exact (List.cons.inj hnames).1
  refine .of_runs rfl rfl (.refl _)
    ((List.range' 1 k.succ).map fun i => "step_" ++ Numeral.ofNat i) ?_ ?_
    (hruns _ fun _ => List.mem_singleton_self _) rfl
  · -- Different positions have different numerals, so no two steps share a name.
    refine List.Nodup.map (fun i j h => Numeral.ofNat_inj.1 ?_) List.nodup_range'
    simpa using h
  · rw [hnames, List.map_map]
    refine List.map_congr_left fun i _ => ?_
    simp only [Function.comp_apply, stepName, String.append_assoc]
    rfl

theorem maintenance_of_steps {steps : List Value} (hv : ps.get? "steps" = some (.list steps))
    (hne : steps ≠ []) (target name : String) :
    maintenance name target ps
      = (stepTasks target 1 steps).map fun ts => { named name with tasks := .ofList ts } := by
  obtain ⟨step, rest, rfl⟩ := List.exists_cons_of_ne_nil hne
  unfold maintenance requiredParameter
  rw [hv]
  show (stepTasks target 1 (step :: rest) >>= _) = _
  rcases stepTasks target 1 (step :: rest) with f | ts
  · rfl
  · rfl

theorem settles_maintenance (target : String) (ps : Table Value) :
    Settles target .maintenance ps
      (maintenance (target ++ "_" ++ word .maintenance) target ps) := by
  rcases requiredParameter_cases ps "steps" .maintenance with ⟨v, hv, hreq⟩ | ⟨hv, hreq⟩
  · by_cases hlist : ∃ steps, v = .list steps ∧ steps ≠ []
    · obtain ⟨steps, rfl, hne⟩ := hlist
      rw [maintenance_of_steps hv hne]
      rcases stepTasks_cases target 1 steps with ⟨hsteps, ts, hts⟩ | ⟨i, v, hi, hno, -, herr⟩
      · exact .inl ⟨⟨steps, hv, hne, hsteps⟩, _, by rw [hts]; rfl, runnable_steps hne hsteps hts⟩
      · refine .inr
          ⟨?_, .stepNoText (1 + i) v, by rw [herr]; rfl, rfl, steps, hv, by omega, ?_, hno⟩
        · rintro ⟨steps', hsteps, -, htexts⟩
          rw [hv] at hsteps
          cases hsteps
          exact hno (htexts v (List.mem_of_getElem? hi))
        · rw [Nat.add_sub_cancel_left]
          exact hi
    · unfold maintenance
      rw [hreq]
      refine .inr ⟨?_, .noSteps, ?_, rfl, v, hv, hlist⟩
      · rintro ⟨steps, hsteps, hne, -⟩
        rw [hv] at hsteps
        cases hsteps
        exact hlist ⟨steps, rfl, hne⟩
      · rcases v with _ | _ | _ | _ | _ | steps | _
        case list =>
          cases steps with
          | nil => rfl
          | cons step rest => exact absurd ⟨_, rfl, by simp⟩ hlist
        all_goals rfl
  · unfold maintenance
    rw [hreq]
    refine .inr ⟨?_, .missing _ "steps", rfl, rfl, by simp, hv⟩
    rintro ⟨steps, hsteps, -⟩
    rw [hv] at hsteps
    cases hsteps

end Steps

/-- The workflow of an action can be built exactly if the parameters have the form that the action
asks for. It can then be run, whatever the target is called. What is refused is refused for a fault
of the parameters, so the check of the built workflow never refuses anything. -/
theorem build_outcome (target : String) (action : WorkflowAction) (ps : Table Value) :
    ((∃ w, build target action ps = .ok w) ↔ action.Accepts ps)
      ∧ (∀ w, build target action ps = .ok w → w.Runnable target action)
      ∧ ∀ f, build target action ps = .error f → action.Blames ps f := by
  have hsettles : Settles target action ps (build target action ps) := by
    cases action with
    | deploy => exact (settles_deploy target ps).validated
    | teardown => exact (settles_teardown target ps).validated
    | healthProbe => exact (settles_healthProbe target ps).validated
    | maintenance => exact (settles_maintenance target ps).validated
  rcases hsettles with ⟨haccepts, w, hw, hruns⟩ | ⟨hnot, f, hf, hblames⟩
  · rw [hw]
    refine ⟨iff_of_true ⟨w, rfl⟩ haccepts, ?_, ?_⟩
    · rintro _ ⟨⟩
      exact hruns
    · rintro _ ⟨⟩
  · rw [hf]
    refine ⟨iff_of_false ?_ hnot, ?_, ?_⟩
    · rintro ⟨_, ⟨⟩⟩
    · rintro _ ⟨⟩
    · rintro _ ⟨⟩
      exact hblames

end Workflow

end Provision
