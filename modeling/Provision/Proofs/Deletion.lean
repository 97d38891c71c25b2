import Provision.Proofs.Creation

/-!
# What the deletion of a stack comes to

To ask for a deletion never fails, for a stack that is not there counts as deleted. A stack that has
a script for its deletion goes on by that script, and any other is gone from then on, so that asking
once more changes nothing (`deletionAsked_delete`, `after_delete_again`).

A wait for the deletion ends with the first answer that says that the stack is gone or that its
deletion is over. What is said of other actions, even that they are complete or have failed, is at
most the last status seen (`outcome_awaitDeleted`).
-/

namespace Provision

/-- The answer ends a wait for deletion: the stack does not exist, or its deletion is over. -/
def Poll.EndsDeletion : Poll → Prop
  | .status s _ => s.action = .delete ∧ s.state ≠ .inProgress
  | .unreachable => False
  | .gone => True

theorem Poll.settles_deletionSettled {p : Poll} :
    p.settles Lifecycle.deletionSettled = true ↔ p.EndsDeletion := by
  rcases p with ⟨⟨action, state⟩, reason⟩ | _ | _
  · cases state <;>
      simp [settles, Lifecycle.deletionSettled, EndsDeletion, StackStatus.isInProgress]
  · simp [settles, EndsDeletion]
  · simp [settles, EndsDeletion]

namespace Rehearsal

variable {r : Rehearsal} {id : String}

/-- The script that takes over once the stack is to be deleted. -/
def deletionScript? (r : Rehearsal) (id : String) : Option (List Poll) :=
  (r.known.get? id).bind RehearsedStack.deletePolls

/-! ## Asking for a deletion -/

/-- The service `r'` is the service `r` once the deletion of the stack has been asked for: looks are
answered by the script for the deletion, or the stack is gone. Nothing else has changed. -/
structure DeletionAsked (r r' : Rehearsal) (id : String) : Prop where
  answers : ∀ i, r'.answer id i = ((r.deletionScript? id).map (Poll.nth · i)).getD .gone
  stays : ∀ stack polls, r.known.get? id = some stack → stack.deletePolls = some polls →
    r'.known.get? id = some { stack with polls := polls, deletePolls := none }
  vanishes : r.deletionScript? id = none → r'.known.get? id = none
  others : ∀ other, other ≠ id → r'.known.get? other = r.known.get? other
  rest : r' = { r with known := r'.known }

/-- A stack that is not there is left alone. -/
theorem delete_of_unknown (h : r.known.get? id = none) :
    r.delete id = (.error (noStack id), r) := by
  simp only [delete, h]

theorem delete_of_scriptless {stack : RehearsedStack} (h : r.known.get? id = some stack)
    (hd : stack.deletePolls = none) :
    r.delete id = (.ok (), { r with known := r.known.erase id }) := by
  simp only [delete, h, hd]

theorem delete_of_scripted {stack : RehearsedStack} {polls : List Poll}
    (h : r.known.get? id = some stack) (hd : stack.deletePolls = some polls) :
    r.delete id = (.ok (), { r with
      known := r.known.put id { stack with polls := polls, deletePolls := none } }) := by
  simp only [delete, h, hd]

theorem deletionAsked_delete (r : Rehearsal) (id : String) :
    DeletionAsked r (r.delete id).2 id := by
  rcases hk : r.known.get? id with _ | stack
  · have hscript : r.deletionScript? id = none := by rw [deletionScript?, hk]; rfl
    rw [delete_of_unknown hk]
    refine ⟨fun i => ?_, fun _ _ h => ?_, fun _ => hk, fun _ _ => rfl, rfl⟩
    · rw [hscript, answer, hk]
      rfl
    · rw [hk] at h
      cases h
  rcases hd : stack.deletePolls with _ | polls
  · have hscript : r.deletionScript? id = none := by rw [deletionScript?, hk]; exact hd
    have hgone : (r.known.erase id).get? id = none := by rw [Table.get?_erase, if_pos rfl]
    rw [delete_of_scriptless hk hd]
    refine ⟨fun i => ?_, fun _ _ h h' => ?_, fun _ => hgone, fun other ho => ?_, rfl⟩
    · simp only [hscript, answer, hgone]
      rfl
    · rw [hk] at h
      cases h
      rw [hd] at h'
      cases h'
    · exact Table.get?_erase.trans (if_neg ho)
  · have hscript : r.deletionScript? id = some polls := by rw [deletionScript?, hk]; exact hd
    rw [delete_of_scripted hk hd]
    refine ⟨fun i => ?_, fun _ _ h h' => ?_, fun h => ?_, fun other ho => ?_, rfl⟩
    · simp only [hscript, answer, Table.get?_put, if_true]
      rfl
    · rw [hk] at h
      cases h
      rw [hd] at h'
      cases h'
      exact Table.get?_put.trans (if_pos rfl)
    · rw [hscript] at h
      cases h
    · exact Table.get?_put.trans (if_neg ho)

/-- Only for a stack that is not there does the service fail. -/
theorem isNotFound_of_delete {e : ServiceError} (h : (r.delete id).1 = .error e) :
    e.isNotFound = true := by
  unfold delete at h
  split at h
  · cases h
    rfl
  · split at h <;> cases h

variable (settings : LifecycleSettings)

/-- The driver takes a stack that is not there for a deleted one. -/
theorem delete_run : r.outcome ((lifecycle settings).delete id) = .ok ()
    ∧ r.after ((lifecycle settings).delete id) = (r.delete id).2 := by
  have hcall : StateT.run ((lifecycle settings).service.delete id).run r = pure (r.delete id) := rfl
  rw [Lifecycle.delete, outcome_lift_bind, after_lift_bind, hcall]
  rcases hd : (r.delete id).1 with e | _
  · simp only [isNotFound_of_delete hd, if_true, pure]
    exact ⟨rfl, rfl⟩
  · exact ⟨rfl, rfl⟩

theorem after_delete_again (h : r.deletionScript? id = none) :
    (r.after ((lifecycle settings).delete id)).after ((lifecycle settings).delete id)
      = r.after ((lifecycle settings).delete id) := by
  rw [(delete_run settings).2, (delete_run settings).2,
    delete_of_unknown ((deletionAsked_delete r id).vanishes h)]

/-! ## Waiting for a deletion -/

/-- What is made of an answer that ends a wait for deletion. -/
def deletion (id : String) : Poll → Except Fault Unit
  | .status status reason =>
    if status.state = .complete then .ok ()
    else .error (.deleteFailed id (reason.getD status.text))
  | _ => .ok ()

variable (r id)

theorem outcome_awaitDeleted (budget : Budget) :
    r.outcome ((lifecycle settings).awaitDeleted id budget)
      = match (r.answers id budget.retries).find? (Poll.settles Lifecycle.deletionSettled) with
        | some p => deletion id p
        | none => .error (.deleteTimedOut id
            ((r.answers id budget.retries).filterMap Poll.status?).getLast?) := by
  rw [Lifecycle.awaitDeleted, outcome_lift_bind, awaitSettled_run, Option.or_none]
  rcases (r.answers id budget.retries).find? _ with _ | ⟨status, reason⟩ | _ | _
  · rfl
  · have hseen : (r.seen id status reason).status = status := rfl
    simp only [settledWait, deletion, hseen]
    split
    · rfl
    · rfl
  · rfl
  · rfl

theorem after_awaitDeleted (budget : Budget) :
    r.after ((lifecycle settings).awaitDeleted id budget)
      = lookedAt id (min ((r.answers id budget.retries).findIdx
          (Poll.settles Lifecycle.deletionSettled) + 1) budget.retries) r := by
  rw [Lifecycle.awaitDeleted, after_lift_bind, awaitSettled_run, Option.or_none]
  rcases (r.answers id budget.retries).find? _ with _ | ⟨status, reason⟩ | _ | _
  · rfl
  · simp only [settledWait]
    split
    · rfl
    · rfl
  · rfl
  · rfl

/-- A wait for deletion comes to what the answer that has ended it says. -/
structure Removed (id : String) (p : Poll) (outcome : Except Fault Unit) : Prop where
  gone : p = .gone → outcome = .ok ()
  deleted : ∀ reason, p = .status ⟨.delete, .complete⟩ reason → outcome = .ok ()
  failed : ∀ reason, p = .status ⟨.delete, .failed⟩ reason →
    outcome = .error (.deleteFailed id (reason.getD (StackStatus.text ⟨.delete, .failed⟩)))

theorem removed_deletion (p : Poll) : Removed id p (deletion id p) := by
  refine ⟨?_, ?_, ?_⟩
  · rintro rfl
    rfl
  · rintro reason rfl
    rfl
  · rintro reason rfl
    rfl

/-- The service and the script of a stack decide its deletion. Asking for it succeeds, whether or
not there is such a stack, and has the script for the deletion take over; without one, asking again
changes nothing. The first answer within the budget that ends a wait for the deletion says what the
wait comes to. If there is no such answer, the wait times out with the last status read. The stack
is looked at up to the answer that ends the wait, or else as often as the budget allows. -/
theorem awaitDeleted_determined (settings : LifecycleSettings) (r : Rehearsal) (id : String)
    (budget : Budget) :
    r.outcome ((lifecycle settings).delete id) = .ok ()
    ∧ DeletionAsked r (r.after ((lifecycle settings).delete id)) id
    ∧ (r.deletionScript? id = none →
        (r.after ((lifecycle settings).delete id)).after ((lifecycle settings).delete id)
          = r.after ((lifecycle settings).delete id))
    ∧ (∀ k < budget.retries, (r.answer id k).EndsDeletion →
        (∀ i < k, ¬ (r.answer id i).EndsDeletion) →
          Removed id (r.answer id k) (r.outcome ((lifecycle settings).awaitDeleted id budget))
          ∧ (r.known.contains id = true →
            (r.after ((lifecycle settings).awaitDeleted id budget)).looks id
              = r.looks id + min (k + 1) budget.retries))
    ∧ ((∀ i < budget.retries, ¬ (r.answer id i).EndsDeletion) →
        r.outcome ((lifecycle settings).awaitDeleted id budget)
          = .error (.deleteTimedOut id
              ((r.answers id budget.retries).filterMap Poll.status?).getLast?)
        ∧ (r.known.contains id = true →
          (r.after ((lifecycle settings).awaitDeleted id budget)).looks id
            = r.looks id + budget.retries)) := by
  simp only [← Poll.settles_deletionSettled, Bool.not_eq_true]
  have hdelete : r.outcome ((lifecycle settings).delete id) = .ok ()
      ∧ r.after ((lifecycle settings).delete id) = (r.delete id).2 := delete_run settings
  obtain ⟨houtcome, hafter⟩ := hdelete
  refine ⟨houtcome, ?_, after_delete_again settings, fun k hk hend hbefore => ?_,
    fun hnone => ?_⟩
  · rw [hafter]
    exact deletionAsked_delete r id
  · obtain ⟨hfind, hidx⟩ := find?_answers hk hend hbefore
    refine ⟨?_, fun hknown => ?_⟩
    · rw [outcome_awaitDeleted, hfind]
      exact removed_deletion id _
    · rw [after_awaitDeleted, looks_lookedAt _ hknown, hidx]
  · obtain ⟨hfind, hidx⟩ := find?_answers_none hnone
    refine ⟨?_, fun hknown => ?_⟩
    · rw [outcome_awaitDeleted, hfind]
    · rw [after_awaitDeleted, looks_lookedAt _ hknown, hidx, Nat.min_eq_right (Nat.le_succ _)]

end Rehearsal

end Provision
