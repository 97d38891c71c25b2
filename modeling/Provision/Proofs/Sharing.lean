import Mathlib.Data.List.Infix
import Provision.Proofs.Runnable

/-!
# Targets share an engine

A name begins with its target, and a target may be called anything, so it is not plain where the
target ends: `x_health_probe` is the workflow that probes `x`, and a task of the one that probes
`x_health`. But of the endings of workflows none is the end of another one, nor is any of those of
tasks, however far the steps of maintenance are numbered. So a workflow has one target and so has a
task, and what is built for different targets has no name in common (`built_apart`).
-/

namespace Provision

/-- What a task is there for. -/
inductive TaskKind where
  | create
  | waitActive
  | delete
  | probe
  | markReachable
  | markUnreachable
  | step (position : Nat)

namespace TaskKind

/-- What the name of a task says after its target. -/
def word : TaskKind → String
  | .create => "create"
  | .waitActive => "wait_active"
  | .delete => "delete"
  | .probe => "probe"
  | .markReachable => "mark_reachable"
  | .markUnreachable => "mark_unreachable"
  | .step position => "step_" ++ Numeral.ofNat position

/-- The words without a number. -/
def plainWords : List String :=
  ["create", "wait_active", "delete", "probe", "mark_reachable", "mark_unreachable"]

/-- The digits that the word ends in. -/
def digits : TaskKind → List Char
  | .step position => Numeral.digits position
  | _ => []

theorem plain_or_step (k : TaskKind) :
    (k.word ∈ plainWords ∧ k.digits = []) ∨ ∃ position, k = .step position := by
  cases k with
  | step position => exact .inr ⟨position, rfl⟩
  | _ => exact .inl ⟨by simp [word, plainWords], rfl⟩

end TaskKind

namespace WorkflowAction

/-- The words for the actions. -/
def words : List String := ["deploy", "teardown", "health_probe", "maintenance"]

theorem word_mem_words (action : WorkflowAction) : action.word ∈ words := by
  cases action <;> simp [word, words]

theorem ofWord?_word (action : WorkflowAction) : ofWord? action.word = some action := by
  cases action <;> rfl

theorem word_inj {a b : WorkflowAction} (h : a.word = b.word) : a = b :=
  Option.some.inj (ofWord?_word a ▸ h ▸ ofWord?_word b)

end WorkflowAction

namespace Workflow

variable {s t a b target name : String} {k l : TaskKind} {ps : Table Value} {w : Workflow}

section Endings

/-- No word, with what sets it off from the target, is the end of another one. -/
def Apart (words : List String) : Prop :=
  ∀ a ∈ words, ∀ b ∈ words, ("_" ++ a).toList <:+ ("_" ++ b).toList → a = b

theorem apart_words : Apart WorkflowAction.words := by
  unfold Apart
  decide

theorem apart_plainWords : Apart TaskKind.plainWords := by
  unfold Apart
  decide

theorem Apart.inj {words : List String} (hw : Apart words) (ha : a ∈ words) (hb : b ∈ words)
    (h : s ++ "_" ++ a = t ++ "_" ++ b) : s = t ∧ a = b := by
  have hlist : s.toList ++ ("_" ++ a).toList = t.toList ++ ("_" ++ b).toList := by
    rw [← String.toList_append, ← String.toList_append, ← String.append_assoc, h,
      String.append_assoc]
  -- Both endings are ends of the one name, so one of them is an end of the other.
  have hleft := List.suffix_append s.toList ("_" ++ a).toList
  have hright := List.suffix_append t.toList ("_" ++ b).toList
  rw [← hlist] at hright
  obtain rfl : a = b := by
    rcases List.suffix_or_suffix_of_suffix hleft hright with hend | hend
    · exact hw a ha b hb hend
    · exact (hw b hb a ha hend).symm
  exact ⟨(String.append_left_inj _).1 ((String.append_left_inj _).1 h), rfl⟩

/-- The digits that a name ends in, the last one first. -/
def lastDigits (name : String) : List Char := name.toList.reverse.takeWhile Char.isDigit

theorem lastDigits_task (target : String) (k : TaskKind) :
    lastDigits (target ++ "_" ++ k.word) = k.digits.reverse := by
  cases k with
  | step position =>
    have hdigits : ∀ c ∈ (Numeral.digits position).reverse, c.isDigit = true := fun c hc =>
      Numeral.isDigit_of_mem_digits (List.mem_reverse.1 hc)
    simp [lastDigits, TaskKind.word, TaskKind.digits, Numeral.ofNat,
      List.takeWhile_append_of_pos hdigits]
  | _ => simp [lastDigits, TaskKind.word, TaskKind.digits]

/-- A task has one target. -/
theorem target_eq_of_task (h : s ++ "_" ++ k.word = t ++ "_" ++ l.word) : s = t := by
  have hdigits : k.digits = l.digits := by
    have hlast := congrArg lastDigits h
    rw [lastDigits_task, lastDigits_task] at hlast
    exact List.reverse_injective hlast
  rcases k.plain_or_step with ⟨hk, hnone⟩ | ⟨i, rfl⟩
  · rcases l.plain_or_step with ⟨hl, -⟩ | ⟨j, rfl⟩
    · exact (apart_plainWords.inj hk hl h).1
    · exact absurd (hdigits.symm.trans hnone) Numeral.digits_ne_nil
  · rcases l.plain_or_step with ⟨-, hnone⟩ | ⟨j, rfl⟩
    · exact absurd (hdigits.trans hnone) Numeral.digits_ne_nil
    · -- Steps with the same digits have the same ending.
      have hword : TaskKind.word (.step i) = TaskKind.word (.step j) :=
        congrArg (fun ds => "step_" ++ String.ofList ds) hdigits
      rw [hword] at h
      exact (String.append_left_inj _).1 ((String.append_left_inj _).1 h)

end Endings

section Names

/-- The workflow has the name given to it, and every task is named for the target and for what it
is there for. -/
def NamedFor (w : Workflow) (name target : String) : Prop :=
  w.name = name ∧ ∀ x ∈ w.tasks.names, ∃ k : TaskKind, x = target ++ "_" ++ k.word

theorem NamedFor.of_kinds {listed : List (String × Task)} (hname : w.name = name)
    (htasks : w.tasks = .ofList listed) (kinds : List TaskKind)
    (hkinds : Entries.names listed = kinds.map fun k => target ++ "_" ++ k.word) :
    w.NamedFor name target := by
  refine ⟨hname, fun x hx => ?_⟩
  rw [htasks, Table.mem_names, Table.contains_ofList, hkinds] at hx
  obtain ⟨k, -, rfl⟩ := List.mem_map.1 hx
  exact ⟨k, rfl⟩

theorem namedFor_deploy (h : deploy name target ps = .ok w) : w.NamedFor name target := by
  obtain ⟨count, -, h⟩ := bind_eq_ok_iff.1 h
  obtain ⟨delay, -, h⟩ := bind_eq_ok_iff.1 h
  cases h
  refine .of_kinds rfl rfl [.create, .waitActive, .delete] ?_
  simp [TaskKind.word, String.append_assoc]

theorem namedFor_teardown (h : teardown name target ps = .ok w) : w.NamedFor name target := by
  obtain ⟨workload, -, h⟩ := bind_eq_ok_iff.1 h
  cases h
  refine .of_kinds rfl rfl [.delete] ?_
  simp [TaskKind.word, String.append_assoc]

theorem namedFor_healthProbe (h : healthProbe name target ps = .ok w) :
    w.NamedFor name target := by
  obtain ⟨address, -, h⟩ := bind_eq_ok_iff.1 h
  obtain ⟨count, -, h⟩ := bind_eq_ok_iff.1 h
  obtain ⟨delay, -, h⟩ := bind_eq_ok_iff.1 h
  cases h
  refine .of_kinds rfl rfl [.markReachable, .markUnreachable, .probe] ?_
  simp [TaskKind.word, String.append_assoc]

theorem stepName_eq (target : String) (position : Nat) :
    stepName target position = target ++ "_" ++ TaskKind.word (.step position) := by
  have hword : "_" ++ TaskKind.word (.step position) = "_step_" ++ Numeral.ofNat position := by
    rw [TaskKind.word, ← String.append_assoc]
    rfl
  rw [String.append_assoc, hword, stepName, String.append_assoc]

theorem namedFor_maintenance (h : maintenance name target ps = .ok w) :
    w.NamedFor name target := by
  obtain ⟨v, -, h⟩ := bind_eq_ok_iff.1 h
  split at h
  · cases h
  · cases h
  · rename_i steps _ _
    obtain ⟨ts, hts, h⟩ := bind_eq_ok_iff.1 h
    cases h
    rcases stepTasks_cases target 1 steps with ⟨hsteps, -⟩ | ⟨i, v, -, -, -, herr⟩
    · refine .of_kinds rfl rfl ((List.range' 1 steps.length).map .step) ?_
      rw [(runs_stepTasks hsteps hts).1, List.map_map]
      exact List.map_congr_left fun i _ => stepName_eq target i
    · rw [herr] at hts
      cases hts

/-- What passes the check is what was built. -/
theorem of_validated {result : Except WorkflowFault Workflow}
    (h : (do let w ← result; w.validate; return w) = .ok w) : result = .ok w := by
  obtain ⟨built, hbuilt, h⟩ := bind_eq_ok_iff.1 h
  obtain ⟨-, -, h⟩ := bind_eq_ok_iff.1 h
  cases h
  exact hbuilt

theorem namedFor_build {action : WorkflowAction} (h : build target action ps = .ok w) :
    w.NamedFor (target ++ "_" ++ action.word) target := by
  cases action with
  | deploy => exact namedFor_deploy (of_validated h)
  | teardown => exact namedFor_teardown (of_validated h)
  | healthProbe => exact namedFor_healthProbe (of_validated h)
  | maintenance => exact namedFor_maintenance (of_validated h)

end Names

/-- Workflows for different targets have no task in common, and workflows have the same name only
if they take the same action on the same target. -/
theorem built_apart {t₁ t₂ : String} {a₁ a₂ : WorkflowAction} {ps₁ ps₂ : Table Value}
    {w₁ w₂ : Workflow} (h₁ : build t₁ a₁ ps₁ = .ok w₁) (h₂ : build t₂ a₂ ps₂ = .ok w₂) :
    (t₁ ≠ t₂ → w₁.tasks.names.Disjoint w₂.tasks.names)
      ∧ (w₁.name = w₂.name ↔ t₁ = t₂ ∧ a₁ = a₂) := by
  obtain ⟨hname₁, htasks₁⟩ := namedFor_build h₁
  obtain ⟨hname₂, htasks₂⟩ := namedFor_build h₂
  refine ⟨fun hne x hx₁ hx₂ => ?_, ?_⟩
  · obtain ⟨k, hk⟩ := htasks₁ x hx₁
    obtain ⟨l, hl⟩ := htasks₂ x hx₂
    exact hne (target_eq_of_task (hk.symm.trans hl))
  · rw [hname₁, hname₂]
    constructor
    · intro h
      obtain ⟨ht, ha⟩ := apart_words.inj a₁.word_mem_words a₂.word_mem_words h
      exact ⟨ht, WorkflowAction.word_inj ha⟩
    · rintro ⟨rfl, rfl⟩
      rfl

/-- Parameters to probe an address with. -/
def probeParameters : Table Value := .ofList [("address", .string "10.0.0.1")]

theorem exists_build_healthProbe (target : String) :
    ∃ w, build target .healthProbe probeParameters = .ok w := by
  rcases (settles_healthProbe target probeParameters).validated with ⟨-, w, hw, -⟩ | ⟨hnot, -⟩
  · exact ⟨w, hw⟩
  · have hnone : ∀ key, key ≠ "address" → CountIfGiven probeParameters key := by
      intro key hkey v hv
      rw [probeParameters, Table.get?_ofList] at hv
      simp [Ne.symm hkey] at hv
    exact absurd ⟨by decide, hnone _ (by decide), hnone _ (by decide)⟩ hnot

/-- The workflow of one target is called what a task of the other one is called. -/
theorem probes_apart : ∃ w₁ w₂, build "x" .healthProbe probeParameters = .ok w₁
    ∧ build "x_health" .healthProbe probeParameters = .ok w₂
    ∧ w₁.tasks.names = ["x_mark_reachable", "x_mark_unreachable", "x_probe"]
    ∧ w₂.tasks.names
      = ["x_health_mark_reachable", "x_health_mark_unreachable", "x_health_probe"]
    ∧ w₁.tasks.names.Disjoint w₂.tasks.names
    ∧ w₁.name = "x_health_probe" ∧ w₂.name = "x_health_health_probe" ∧ w₁.name ≠ w₂.name := by
  obtain ⟨w₁, h₁⟩ := exists_build_healthProbe "x"
  obtain ⟨w₂, h₂⟩ := exists_build_healthProbe "x_health"
  obtain ⟨htasks, hnames⟩ := built_apart h₁ h₂
  refine ⟨w₁, w₂, h₁, h₂, ?_, ?_, htasks (by decide), ?_, ?_, fun h => ?_⟩
  · cases of_validated h₁
    rfl
  · cases of_validated h₂
    rfl
  · exact (namedFor_build h₁).1
  · exact (namedFor_build h₂).1
  · exact absurd (hnames.1 h).1 (by decide)

end Workflow

end Provision
