import Provision.Proofs.Rehearsed
import Provision.Proofs.Tables

/-!
# What a wait for creation comes to

The answers that a script holds for a stack decide how a wait for it ends: the first one that
settles it, or, if none does within the budget, the last status among them (`awaitSettled_run`).
Broken connections are not heard; they only use up looks. For the creation of a stack this makes
the outcome a function of the script (`awaitAddresses_determined`).
-/

namespace Provision

namespace Poll

/-- The answer at a place in a script. The last one stays, and a script without answers says that
the stack is created. -/
def nth (polls : List Poll) (i : Nat) : Poll :=
  polls.getD (min i (polls.length - 1)) (.status ⟨.create, .complete⟩ none)

/-- The answer ends a wait for such a status. -/
def settles (settled : StackStatus → Bool) : Poll → Bool
  | .status s _ => settled s
  | .unreachable => false
  | .gone => true

/-- The answer ends a wait for creation. -/
def endsCreation : Poll → Bool := settles fun s => !s.isInProgress

theorem settles_not_inProgress : settles (fun s => !s.isInProgress) = endsCreation := rfl

def status? : Poll → Option StackStatus
  | .status s _ => some s
  | _ => none

/-- The connection held. -/
def isHeard : Poll → Bool
  | .unreachable => false
  | _ => true

end Poll

namespace Rehearsal

/-- The answer to a look at a stack, counted from now. -/
def answer (r : Rehearsal) (id : String) (i : Nat) : Poll :=
  match r.known.get? id with
  | none => .gone
  | some stack => .nth stack.polls i

/-- The answers to so many looks at a stack. -/
def answers (r : Rehearsal) (id : String) (n : Nat) : List Poll := (List.range n).map (r.answer id)

/-- The stack as a look shows it that is answered with this status. -/
def seen (r : Rehearsal) (id : String) (status : StackStatus) (reason : Option String) :
    DeployedStack :=
  let stack := (r.known.get? id).getD .blank
  ⟨id, stack.name, status, reason, stack.outputs⟩

/-- The service after so many looks at a stack. -/
def lookedAt (id : String) : Nat → Rehearsal → Rehearsal
  | 0, r => r
  | n + 1, r => lookedAt id n (r.stack id).2

/-! ## Looks -/

theorem nextPoll_fst : ∀ polls : List Poll, (nextPoll polls).1 = .nth polls 0
  | [] | [_] | _ :: _ :: _ => rfl

theorem nth_nextPoll (i : Nat) :
    ∀ polls : List Poll, .nth (nextPoll polls).2 i = Poll.nth polls (i + 1)
  | [] => rfl
  | [p] => by simp [nextPoll, Poll.nth]
  | p :: q :: polls => by
    simp only [nextPoll, Poll.nth, List.length_cons, Nat.add_sub_cancel, Nat.add_min_add_right]
    rfl

theorem answer_stack (r : Rehearsal) (id : String) (i : Nat) :
    (r.stack id).2.answer id i = r.answer id (i + 1) := by
  unfold stack answer
  rcases hk : r.known.get? id with _ | stack
  · simp only [hk]
  · simp only [Table.get?_put, if_true, nth_nextPoll]

theorem answers_succ (r : Rehearsal) (id : String) (n : Nat) :
    r.answers id (n + 1) = r.answer id 0 :: (r.stack id).2.answers id n := by
  simp [answers, List.range_succ_eq_map, answer_stack, Function.comp_def]

theorem seen_stack (r : Rehearsal) (id : String) : (r.stack id).2.seen id = r.seen id := by
  unfold stack seen
  rcases hk : r.known.get? id with _ | stack
  · simp only [hk]
  · simp only [Table.get?_put, if_true, Option.getD_some]

theorem looks_stack {r : Rehearsal} {id : String} (h : r.known.contains id = true) :
    (r.stack id).2.known.contains id = true ∧ (r.stack id).2.looks id = r.looks id + 1 := by
  obtain ⟨stack, hk⟩ := Table.contains_iff.1 h
  unfold Rehearsal.stack looks
  simp [hk, Table.contains, Table.get?_put]

theorem looks_lookedAt {id : String} :
    ∀ (n : Nat) {r : Rehearsal}, r.known.contains id = true →
      (lookedAt id n r).looks id = r.looks id + n
  | 0, _, _ => rfl
  | n + 1, r, h => by
    obtain ⟨hk, hl⟩ := looks_stack h
    rw [lookedAt, looks_lookedAt n hk, hl, Nat.add_assoc, Nat.add_comm 1]

/-! ## Waits -/

section Wait

variable (settings : LifecycleSettings) (id : String)

/-- What a look shows that is answered so. -/
def shown (r : Rehearsal) : Poll → Observation
  | .status status reason => .status (r.seen id status reason)
  | .unreachable => .unreachable (.transport "connection reset by peer")
  | .gone => .gone

theorem look_run (r : Rehearsal) :
    ((lifecycle settings).look id).run r
      = pure (r.shown id (r.answer id 0), (r.stack id).2) := by
  have hrun : ((lifecycle settings).look id).run r
      = pure (Observation.ofReply (r.stack id).1, (r.stack id).2) := rfl
  rw [hrun]
  congr 2
  unfold stack answer
  rcases hk : r.known.get? id with _ | stack
  · rfl
  · simp only [nextPoll_fst]
    cases Poll.nth stack.polls 0 <;> simp [pollReply, shown, seen, hk, Observation.ofReply] <;> rfl

/-- How a wait ends with an answer that settles it. -/
def settledWait (r : Rehearsal) : Poll → Wait
  | .status status reason => .settled (r.seen id status reason)
  | _ => .gone

theorem awaitSettled_succ (settled : StackStatus → Bool) (ms n : Nat) (last : Option StackStatus)
    (r : Rehearsal) :
    ((lifecycle settings).awaitSettled settled id ms (n + 1) last).run r
      = if (r.answer id 0).settles settled then (r.settledWait id (r.answer id 0), (r.stack id).2)
        else ((lifecycle settings).awaitSettled settled id ms n
          ((r.answer id 0).status?.or last)).run (r.stack id).2 := by
  rw [Lifecycle.awaitSettled, StateT.run_bind, look_run, pauseBefore_lifecycle, pure_bind]
  rcases r.answer id 0 with ⟨status, reason⟩ | _ | _
  · have hstatus : (r.seen id status reason).status = status := rfl
    have hsettles : (Poll.status status reason).settles settled = settled status := rfl
    simp only [shown, hstatus, hsettles]
    rcases settled status with _ | _
    · rfl
    · rfl
  · rfl
  · rfl

/-- The first answer that settles a wait ends it; if there is none within the budget, the last
status read remains. -/
theorem awaitSettled_run (settled : StackStatus → Bool) (ms : Nat) :
    ∀ (n : Nat) (last : Option StackStatus) (r : Rehearsal),
      ((lifecycle settings).awaitSettled settled id ms n last).run r
        = (match (r.answers id n).find? (Poll.settles settled) with
            | some p => r.settledWait id p
            | none => .exhausted (((r.answers id n).filterMap Poll.status?).getLast?.or last),
          lookedAt id (min ((r.answers id n).findIdx (Poll.settles settled) + 1) n) r)
  | 0, last, r => by simp [Lifecycle.awaitSettled, answers, lookedAt]; rfl
  | n + 1, last, r => by
    rw [awaitSettled_succ, answers_succ]
    by_cases hs : (r.answer id 0).settles settled = true
    · rw [if_pos hs, List.find?_cons_of_pos hs, List.findIdx_cons, hs]
      simp [lookedAt]
    -- The script of a later look is the rest of this one, and so is the last status in it.
    · have hlast : ((((r.stack id).2.answers id n).filterMap Poll.status?).getLast?.or
            ((r.answer id 0).status?.or last))
          = (((r.answer id 0 :: (r.stack id).2.answers id n).filterMap Poll.status?).getLast?.or
            last) := by
        rw [List.filterMap_cons]
        rcases (r.answer id 0).status? with _ | s
        · rfl
        · rw [List.getLast?_cons]
          rcases (((r.stack id).2.answers id n).filterMap Poll.status?).getLast? with _ | t
          · rfl
          · rfl
      rw [if_neg hs, List.find?_cons_of_neg hs, awaitSettled_run, hlast, List.findIdx_cons,
        Bool.eq_false_iff.2 hs, cond_false, Nat.add_min_add_right, lookedAt]
      simp only [settledWait, seen_stack]

end Wait

/-! ## Creation -/

/-- The outputs of a stack. -/
def outputs (r : Rehearsal) (id : String) : List StackOutput :=
  ((r.known.get? id).getD .blank).outputs

/-- The value that a stack has last under the name of an output. -/
def lastOutput? (r : Rehearsal) (id key : String) : Option Value :=
  ((r.outputs id).reverse.find? fun o => o.key = key).map StackOutput.value

theorem managed?_eq_some_iff {key component : String} :
    managed? key = some component ↔ key = managementOutput component := by
  unfold managed? managementOutput
  constructor
  · intro h
    dsimp only at h
    split at h
    · rename_i hp
      obtain ⟨rest, hrest⟩ := List.isPrefixOf_iff_prefix.1 hp
      rw [← hrest, List.drop_left] at h
      cases h
      rw [← String.toList_inj, String.toList_append, String.toList_ofList, hrest]
    · cases h
  · rintro rfl
    simp

theorem managementOutputs_seen {r : Rehearsal} {id component : String} {status : StackStatus}
    {reason : Option String} :
    (r.seen id status reason).managementOutputs.get? component
      = r.lastOutput? id (managementOutput component) := by
  have houtputs : (r.seen id status reason).outputs = r.outputs id := rfl
  have hany (o : StackOutput) : Option.any (fun e => decide (e.1 = component))
      ((managed? o.key).map fun found => (found, o.value))
        = decide (o.key = managementOutput component) := by
    rw [Bool.eq_iff_iff, decide_eq_true_iff, ← managed?_eq_some_iff]
    rcases managed? o.key with _ | found
    · simp
    · simp
  rw [DeployedStack.managementOutputs, Table.get?_ofList, houtputs, lastOutput?,
    ← List.filterMap_reverse, List.find?_filterMap]
  simp only [hany]
  generalize hfound : (r.outputs id).reverse.find? _ = found
  rcases found with _ | o
  · rfl
  · have hkey : o.key = managementOutput component := by simpa using List.find?_some hfound
    simp [managed?_eq_some_iff.2 hkey]

/-- What is made of an answer that ends a wait for creation. -/
def creation (r : Rehearsal) (id : String) : Poll → Except Fault (Table Value)
  | .status status reason =>
    if status.isComplete .create then .ok (r.seen id status reason).managementOutputs
    else .error (.createFailed id (reason.getD status.text))
  | _ => .error (.createFailed id ("stack " ++ id ++ " disappeared while being created"))

/-- The stack as an answer shows it that ends a wait for creation. -/
def created (r : Rehearsal) (id : String) : Poll → Except Fault DeployedStack
  | .status status reason =>
    if status.isComplete .create then .ok (r.seen id status reason)
    else .error (.createFailed id (reason.getD status.text))
  | _ => .error (.createFailed id ("stack " ++ id ++ " disappeared while being created"))

theorem creation_eq (r : Rehearsal) (id : String) (p : Poll) :
    r.creation id p = (r.created id p).map DeployedStack.managementOutputs := by
  rcases p with ⟨status, reason⟩ | _ | _
  · simp only [creation, created]
    split
    · rfl
    · rfl
  · rfl
  · rfl

theorem creation_congr {r other : Rehearsal} {id : String} (h : other.outputs id = r.outputs id) :
    other.creation id = r.creation id := by
  funext p
  rcases p with ⟨status, reason⟩ | _ | _
  · have hseen : (other.seen id status reason).managementOutputs
        = (r.seen id status reason).managementOutputs := by
      change Table.ofList ((other.outputs id).filterMap _) = _
      rw [h]
      rfl
    rw [creation, hseen, creation]
  · rfl
  · rfl

section Create

variable (settings : LifecycleSettings) (r : Rehearsal) (id : String) (budget : Budget)

theorem outcome_awaitCreated :
    r.outcome ((lifecycle settings).awaitCreated id budget)
      = match (r.answers id budget.retries).find? Poll.endsCreation with
        | some p => r.created id p
        | none => .error (.createTimedOut id
            ((r.answers id budget.retries).filterMap Poll.status?).getLast?) := by
  rw [Lifecycle.awaitCreated, outcome_lift_bind, awaitSettled_run, Poll.settles_not_inProgress,
    Option.or_none]
  rcases (r.answers id budget.retries).find? Poll.endsCreation with _ | ⟨status, reason⟩ | _ | _
  · rfl
  · have hseen : (r.seen id status reason).status = status := rfl
    simp only [settledWait, created, hseen]
    split
    · rfl
    · rfl
  · rfl
  · rfl

theorem after_awaitCreated :
    r.after ((lifecycle settings).awaitCreated id budget)
      = lookedAt id (min ((r.answers id budget.retries).findIdx Poll.endsCreation + 1)
          budget.retries) r := by
  rw [Lifecycle.awaitCreated, after_lift_bind, awaitSettled_run, Poll.settles_not_inProgress,
    Option.or_none]
  rcases (r.answers id budget.retries).find? Poll.endsCreation with _ | ⟨status, reason⟩ | _ | _
  · rfl
  · simp only [settledWait]
    split
    · rfl
    · rfl
  · rfl
  · rfl

theorem outcome_awaitAddresses :
    r.outcome ((lifecycle settings).awaitAddresses id budget)
      = match (r.answers id budget.retries).find? Poll.endsCreation with
        | some p => r.creation id p
        | none => .error (.createTimedOut id
            ((r.answers id budget.retries).filterMap Poll.status?).getLast?) := by
  rw [Lifecycle.awaitAddresses, outcome_map, outcome_awaitCreated]
  rcases (r.answers id budget.retries).find? Poll.endsCreation with _ | p
  · rfl
  · exact (creation_eq r id p).symm

theorem after_awaitAddresses :
    r.after ((lifecycle settings).awaitAddresses id budget)
      = lookedAt id (min ((r.answers id budget.retries).findIdx Poll.endsCreation + 1)
          budget.retries) r := by
  rw [Lifecycle.awaitAddresses, after_map, after_awaitCreated]

end Create

/-- The answers but for broken connections. -/
def heard (r : Rehearsal) (id : String) (n : Nat) : List Poll :=
  (r.answers id n).filter Poll.isHeard

/-- A wait for creation comes to what the answer that has ended it says. -/
structure Concluded (r : Rehearsal) (id : String) (p : Poll)
    (outcome : Except Fault (Table Value)) : Prop where
  created : ∀ reason, p = .status ⟨.create, .complete⟩ reason →
    ∃ addresses, outcome = .ok addresses
      ∧ ∀ component, addresses.get? component = r.lastOutput? id (managementOutput component)
  failed : ∀ status reason, p = .status status reason → status ≠ ⟨.create, .complete⟩ →
    outcome = .error (.createFailed id (reason.getD status.text))
  vanished : p = .gone →
    outcome = .error (.createFailed id ("stack " ++ id ++ " disappeared while being created"))

theorem concluded_creation (r : Rehearsal) (id : String) (p : Poll) :
    r.Concluded id p (r.creation id p) := by
  have hcomplete (status : StackStatus) :
      status.isComplete .create = true ↔ status = ⟨.create, .complete⟩ := by
    obtain ⟨action, state⟩ := status
    simp [StackStatus.isComplete]
  refine ⟨?_, ?_, ?_⟩
  · rintro reason rfl
    exact ⟨_, rfl, fun component => managementOutputs_seen⟩
  · rintro status reason rfl hne
    exact if_neg fun h => hne ((hcomplete _).1 h)
  · rintro rfl
    rfl

theorem find?_answers {r : Rehearsal} {id : String} {f : Poll → Bool} {k n : Nat} (hk : k < n)
    (hend : f (r.answer id k) = true) (hbefore : ∀ i < k, f (r.answer id i) = false) :
    (r.answers id n).find? f = some (r.answer id k) ∧ (r.answers id n).findIdx f = k := by
  constructor
  · have hfirst : (List.range n).find? (f ∘ r.answer id) = some k :=
      List.find?_range_eq_some.2 ⟨hend, List.mem_range.2 hk, by simpa using hbefore⟩
    rw [answers, List.find?_map, hfirst, Option.map_some]
  · rw [List.findIdx_eq (by simpa [answers] using hk)]
    simpa [answers] using ⟨hend, hbefore⟩

theorem find?_answers_none {r : Rehearsal} {id : String} {f : Poll → Bool} {n : Nat}
    (h : ∀ i < n, f (r.answer id i) = false) :
    (r.answers id n).find? f = none ∧ (r.answers id n).findIdx f = n := by
  have hall : ∀ p ∈ r.answers id n, f p = false := by simpa [answers] using h
  refine ⟨List.find?_eq_none.2 fun p hp => by simp [hall p hp], ?_⟩
  have hlength := List.findIdx_eq_length.2 hall
  simpa [answers] using hlength

theorem find?_heard {r : Rehearsal} {id : String} {n : Nat} :
    (r.heard id n).find? Poll.endsCreation = (r.answers id n).find? Poll.endsCreation := by
  rw [heard, List.find?_filter]
  congr 1
  funext p
  cases p <;> simp [Poll.isHeard, Poll.endsCreation, Poll.settles]

theorem filterMap_heard {r : Rehearsal} {id : String} {n : Nat} :
    (r.heard id n).filterMap Poll.status? = (r.answers id n).filterMap Poll.status? := by
  rw [heard, List.filterMap_filter]
  congr 1
  funext p
  cases p <;> simp [Poll.isHeard, Poll.status?]

/-- The script decides a wait for creation: the first answer within the budget that ends it says
what it comes to, and a more ample budget changes nothing then. If there is no such answer, the
wait times out with the last status read. The stack is looked at up to the answer that ends the
wait, or else as often as the budget allows. Broken connections use up looks and do nothing else:
what is heard besides them decides. -/
theorem awaitAddresses_determined (settings : LifecycleSettings) (r : Rehearsal) (id : String)
    (budget : Budget) :
    (∀ k < budget.retries, (r.answer id k).endsCreation = true →
      (∀ i < k, (r.answer id i).endsCreation = false) →
        r.Concluded id (r.answer id k)
          (r.outcome ((lifecycle settings).awaitAddresses id budget))
        ∧ (r.known.contains id = true →
          (r.after ((lifecycle settings).awaitAddresses id budget)).looks id
            = r.looks id + min (k + 1) budget.retries)
        ∧ ∀ ampler : Budget, budget.retries ≤ ampler.retries →
          r.outcome ((lifecycle settings).awaitAddresses id ampler)
            = r.outcome ((lifecycle settings).awaitAddresses id budget))
    ∧ ((∀ i < budget.retries, (r.answer id i).endsCreation = false) →
        r.outcome ((lifecycle settings).awaitAddresses id budget)
          = .error (.createTimedOut id
              ((r.answers id budget.retries).filterMap Poll.status?).getLast?)
        ∧ (r.known.contains id = true →
          (r.after ((lifecycle settings).awaitAddresses id budget)).looks id
            = r.looks id + budget.retries))
    ∧ ∀ (other : Rehearsal) (b : Budget), other.outputs id = r.outputs id →
        other.heard id b.retries = r.heard id budget.retries →
          other.outcome ((lifecycle settings).awaitAddresses id b)
            = r.outcome ((lifecycle settings).awaitAddresses id budget) := by
  refine ⟨fun k hk hend hbefore => ?_, fun hnone => ?_, fun other b houtputs hheard => ?_⟩
  · obtain ⟨hfind, hidx⟩ := find?_answers hk hend hbefore
    refine ⟨?_, fun hknown => ?_, fun ampler hle => ?_⟩
    · rw [outcome_awaitAddresses, hfind]
      exact r.concluded_creation id _
    · rw [after_awaitAddresses, looks_lookedAt _ hknown, hidx]
    · rw [outcome_awaitAddresses, outcome_awaitAddresses, hfind,
        (find?_answers (Nat.lt_of_lt_of_le hk hle) hend hbefore).1]
  · obtain ⟨hfind, hidx⟩ := find?_answers_none hnone
    refine ⟨?_, fun hknown => ?_⟩
    · rw [outcome_awaitAddresses, hfind]
    · rw [after_awaitAddresses, looks_lookedAt _ hknown, hidx, Nat.min_eq_right (Nat.le_succ _)]
  · rw [outcome_awaitAddresses, outcome_awaitAddresses, ← find?_heard,
      ← filterMap_heard, hheard, find?_heard, filterMap_heard,
      creation_congr houtputs]

end Rehearsal

end Provision
