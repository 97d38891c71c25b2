import Provision.Proofs.Rehearsed

/-!
# What becomes of a signal

Whoever waits for a signal to be acted on reads the newest event of the policy until it is new. The
reads that are going to fail use up the budget first; if they leave any of it, the first read that
succeeds already brings the event that all others would bring (`awaitSignal_run`). So the event and
the number of failing reads decide, and where they do not, the metadata of the policy do
(`signalling_outcomes`).

The metadata also decide when no read has succeeded, and then it is not known whether an event has
followed. A signal that has been refused counts as acted on in this case and in no other
(`awaitScaled_of_refused`).
-/

namespace Provision

namespace SignalWait

/-- How a wait ends that only ever sees this event. -/
def seeing (last : Option String) : Option StackEvent → SignalWait
  | none => .exhausted last
  | some e =>
    if e.status = StackEvent.signalComplete then .complete
    else if e.status = StackEvent.signalFailed then .failed e
    else .exhausted (some e.status)

variable {last : Option String} {e : StackEvent}

theorem seeing_complete (h : e.status = StackEvent.signalComplete) :
    seeing last (some e) = .complete :=
  if_pos h

theorem seeing_failed (h : e.status = StackEvent.signalFailed) :
    seeing last (some e) = .failed e := by
  have hc : e.status ≠ StackEvent.signalComplete := by
    rw [h]
    decide
  exact (if_neg hc).trans (if_pos h)

theorem seeing_undecided (hc : e.status ≠ StackEvent.signalComplete)
    (hx : e.status ≠ StackEvent.signalFailed) :
    seeing last (some e) = .exhausted (some e.status) :=
  (if_neg hc).trans (if_neg hx)

end SignalWait

namespace Rehearsal

/-- The newest event of a resource. -/
def newestEvent? (r : Rehearsal) (id resource : String) : Option StackEvent :=
  ((r.events.get₂? id resource).getD []).head?

/-- The newest event of a resource, unless it is the one that was the newest before. -/
def newEvent? (r : Rehearsal) (id resource : String) (before : Option String) :
    Option StackEvent :=
  (r.newestEvent? id resource).filter fun e => some e.id ≠ before

/-- The new event that so many reads bring, if they are not going to fail all. -/
def readEvent? (r : Rehearsal) (id resource : String) (before : Option String) (n : Nat) :
    Option StackEvent :=
  if r.failingEventReads < n then r.newEvent? id resource before else none

/-- The service after so many reads of events. -/
def read (r : Rehearsal) (n : Nat) : Rehearsal :=
  { r with failingEventReads := r.failingEventReads - n }

theorem read_of_reading {r : Rehearsal} (hf : r.failingEventReads = 0) (n : Nat) :
    r.read n = r := by
  have hsub : r.failingEventReads - n = r.failingEventReads := by omega
  simp only [read, hsub]

section Wait

variable (settings : LifecycleSettings) (id resource : String) (before : Option String)

theorem events_run (r : Rehearsal) (limit : Nat) :
    StateT.run ((lifecycle settings).service.events id resource limit).run r
      = pure (eventsOf id resource limit r) := rfl

theorem eventsOf_failing {r : Rehearsal} (hf : r.failingEventReads ≠ 0) (limit : Nat) :
    eventsOf id resource limit r = (.error (.transport "gateway timeout"), r.read 1) := by
  obtain ⟨f, hf⟩ := Nat.exists_eq_succ_of_ne_zero hf
  simp [eventsOf, hf, read]

theorem eventsOf_reading {r : Rehearsal} (hf : r.failingEventReads = 0) (limit : Nat) :
    eventsOf id resource limit r
      = (.ok (((r.events.get₂? id resource).getD []).take limit), r) := by
  simp [eventsOf, hf]

theorem newest?_take (es : List StackEvent) :
    StackEvent.newest? before (es.take 1) = es.head?.filter fun e => some e.id ≠ before := by
  rcases es with _ | ⟨e, es⟩
  · rfl
  · by_cases h : some e.id = before
    · simp [StackEvent.newest?, Option.filter, h]
    · simp [StackEvent.newest?, Option.filter, h]

theorem awaitSignal_failing {r : Rehearsal} (hf : r.failingEventReads ≠ 0) (ms n : Nat)
    (last : Option String) :
    ((lifecycle settings).awaitSignal id resource before ms (n + 1) last).run r
      = ((lifecycle settings).awaitSignal id resource before ms n last).run (r.read 1) := by
  rw [Lifecycle.awaitSignal, StateT.run_bind, events_run, eventsOf_failing id resource hf,
    pauseBefore_lifecycle, pure_bind]
  rfl

theorem awaitSignal_reading {r : Rehearsal} (hf : r.failingEventReads = 0) (ms n : Nat)
    (last : Option String) :
    ((lifecycle settings).awaitSignal id resource before ms (n + 1) last).run r
      = match r.newEvent? id resource before with
        | none => ((lifecycle settings).awaitSignal id resource before ms n last).run r
        | some e =>
          if e.status = StackEvent.signalComplete then pure (.complete, r)
          else if e.status = StackEvent.signalFailed then pure (.failed e, r)
          else
            ((lifecycle settings).awaitSignal id resource before ms n (some e.status)).run r := by
  have hnew : StackEvent.newest? before <$>
      (.ok (((r.events.get₂? id resource).getD []).take 1) : Except ServiceError _)
        = .ok (r.newEvent? id resource before) := congrArg Except.ok (newest?_take before _)
  rw [Lifecycle.awaitSignal, StateT.run_bind, events_run, eventsOf_reading id resource hf,
    pauseBefore_lifecycle, pure_bind, hnew]
  rcases r.newEvent? id resource before with _ | e
  · rfl
  · by_cases hc : e.status = StackEvent.signalComplete
    · simp only [if_pos hc]
      rfl
    by_cases hx : e.status = StackEvent.signalFailed
    · simp only [if_neg hc, if_pos hx]
      rfl
    · simp only [if_neg hc, if_neg hx]
      rfl

/-- Failing reads use up the budget first; then every read brings the same event. -/
theorem awaitSignal_run (ms : Nat) :
    ∀ (n : Nat) (last : Option String) (r : Rehearsal),
      ((lifecycle settings).awaitSignal id resource before ms n last).run r
        = pure (.seeing last (r.readEvent? id resource before n), r.read n)
  | 0, last, r => rfl
  | n + 1, last, r => by
    by_cases hf : r.failingEventReads = 0
    -- No read fails any more: each leaves the service as it was, so all bring the same event.
    · have hlater (last : Option String) :
          ((lifecycle settings).awaitSignal id resource before ms n last).run r
            = pure (.seeing last (r.readEvent? id resource before n), r) := by
        rw [awaitSignal_run, read_of_reading hf]
      have hread : r.readEvent? id resource before (n + 1) = r.newEvent? id resource before :=
        if_pos (hf ▸ n.succ_pos)
      rw [awaitSignal_reading settings id resource before hf, read_of_reading hf, hread]
      rcases hnew : r.newEvent? id resource before with _ | e
      · simp only [hlater, readEvent?, hnew, ite_self]
      by_cases hc : e.status = StackEvent.signalComplete
      · simp only [SignalWait.seeing_complete hc, if_pos hc]
      by_cases hx : e.status = StackEvent.signalFailed
      · simp only [SignalWait.seeing_failed hx, if_neg hc, if_pos hx]
      · have hsame : SignalWait.seeing (some e.status) (r.readEvent? id resource before n)
            = .exhausted (some e.status) := by
          unfold readEvent?
          split
          · rw [hnew, SignalWait.seeing_undecided hc hx]
          · rfl
        simp only [hlater, hsame, SignalWait.seeing_undecided hc hx, if_neg hc, if_neg hx]
    -- A failing read costs one of the budget and one of the failures.
    · rw [awaitSignal_failing settings id resource before hf, awaitSignal_run]
      have hread : (r.read 1).read n = r.read (n + 1) := by
        simp only [read, Nat.sub_sub, Nat.add_comm 1]
      have hiff : (r.read 1).failingEventReads < n ↔ r.failingEventReads < n + 1 := by
        simp only [read]
        omega
      have hevent : (r.read 1).readEvent? id resource before n
          = r.readEvent? id resource before (n + 1) := by
        simp only [readEvent?, hiff]
        rfl
      rw [hread, hevent]

end Wait

/-- The metadata of a resource say that it is not at work. -/
def Idle (r : Rehearsal) (id resource : String) : Prop :=
  ((r.metadata.get₂? id resource).getD .empty).get? Lifecycle.atWorkKey = some (.bool false)

theorem maybeAtWork_eq_false_iff {metadata : Table Value} :
    Lifecycle.maybeAtWork (.ok metadata) = false
      ↔ metadata.get? Lifecycle.atWorkKey = some (.bool false) := by
  simp only [Lifecycle.maybeAtWork]
  rcases metadata.get? Lifecycle.atWorkKey with _ | v
  · simp
  · cases v <;> simp [Value.asBool?]

section Outcome

variable (settings : LifecycleSettings) {r : Rehearsal} {id : String} {bindings : Bindings}
  {request : ScaleRequest} {group : String}

/-- The fault names the policy, and no service is asked for anything. -/
theorem scale_of_unbound {m : Type → Type} [Monad m] [LawfulMonad m] (l : Lifecycle m)
    (h : bindings.get? request.policy = none) :
    (l.scale id bindings request).run = pure (.error (.unknownScalingPolicy request.policy)) := by
  have hgroup : request.group bindings = .error (.unknownScalingPolicy request.policy) := by
    simp only [ScaleRequest.group, h]
  rw [Lifecycle.scale, hgroup, ExceptT.run_bind, ExceptT.run_mk, pure_bind]

theorem awaitScaled_of_unbound {m : Type → Type} [Monad m] [LawfulMonad m] (l : Lifecycle m)
    {before : Option String} {budget : Budget} (h : bindings.get? request.policy = none) :
    (l.awaitScaled id bindings request before budget).run
      = pure (.error (.unknownScalingPolicy request.policy)) := by
  have hgroup : request.group bindings = .error (.unknownScalingPolicy request.policy) := by
    simp only [ScaleRequest.group, h]
  rw [Lifecycle.awaitScaled, hgroup, ExceptT.run_bind, ExceptT.run_mk, pure_bind]

theorem scale_run (h : bindings.get? request.policy = some group) :
    StateT.run ((lifecycle settings).scale id bindings request).run r
      = match eventsOf id request.resource 1 r with
        | (.ok events, read) =>
          pure (.ok (events.head?.map StackEvent.id), signal id request.resource read)
        | (.error e, read) => pure (.error (.service e), read) := by
  have hgroup : request.group bindings = .ok group := by simp only [ScaleRequest.group, h]
  have hevents : StateT.run (((lifecycle settings).service.events id request.resource 1).adapt
        Fault.service).run r
      = pure ((eventsOf id request.resource 1 r).1.mapError Fault.service,
          (eventsOf id request.resource 1 r).2) := rfl
  rw [Lifecycle.scale, hgroup, ExceptT.run_bind, ExceptT.run_mk, pure_bind]
  simp only [ExceptT.run_bind, StateT.run_bind, hevents, pure_bind]
  rcases eventsOf id request.resource 1 r with ⟨_ | _, _⟩
  · rfl
  · rfl

theorem outcome_awaitScaled (h : bindings.get? request.policy = some group)
    (before : Option String) (budget : Budget) :
    r.outcome ((lifecycle settings).awaitScaled id bindings request before budget)
      = match SignalWait.seeing none (r.readEvent? id request.resource before budget.retries) with
        | .complete => (r.withMembers id group .empty).mapError Fault.service
        | .failed e => .error (.scaleFailed id e.reason)
        | .exhausted last =>
          if Lifecycle.maybeAtWork (.ok ((r.metadata.get₂? id request.resource).getD .empty)) then
            .error (.scaleTimedOut id last)
          else (r.withMembers id group .empty).mapError Fault.service := by
  have hgroup : (ExceptT.mk (pure (request.group bindings)) : ExceptT Fault (StateM Rehearsal) _)
      = pure group := by
    simp only [ScaleRequest.group, h]
    rfl
  rw [Lifecycle.awaitScaled, hgroup, pure_bind, outcome_lift_bind, awaitSignal_run]
  rcases SignalWait.seeing none (r.readEvent? id request.resource before budget.retries)
    with _ | e | last
  · exact outcome_addGroups settings
  · rfl
  · refine outcome_lift_bind.trans ?_
    by_cases hwork :
        Lifecycle.maybeAtWork (.ok ((r.metadata.get₂? id request.resource).getD .empty)) = true
    · simp only [if_pos hwork]
      exact congrArg (Rehearsal.outcome _) (if_pos hwork)
    · simp only [if_neg hwork]
      exact (congrArg (Rehearsal.outcome _) (if_neg hwork)).trans (outcome_addGroups settings)

end Outcome

/-! ## Outcomes -/

/-- What a signal comes to, and what is left of it on the service. -/
structure Signalled (r : Rehearsal) (id : String) (bindings : Bindings) (request : ScaleRequest)
    (outcome : Except Fault (Option String)) (later : Rehearsal) : Prop where
  unbound : bindings.get? request.policy = none →
    outcome = .error (.unknownScalingPolicy request.policy) ∧ later = r
  unread : ∀ group, bindings.get? request.policy = some group → r.failingEventReads ≠ 0 →
    (∃ e, outcome = .error (.service e)) ∧ later.signals = r.signals
  sent : ∀ group, bindings.get? request.policy = some group → r.failingEventReads = 0 →
    outcome = .ok ((r.newestEvent? id request.resource).map StackEvent.id)
      ∧ later.signals = r.signals ++ [(id, signalName request.policy request.direction)]

/-- What a wait for a signal comes to that allows so many reads. -/
structure Awaited (r : Rehearsal) (id : String) (bindings : Bindings) (request : ScaleRequest)
    (before : Option String) (n : Nat) (outcome : Except Fault Endpoints) : Prop where
  unbound : bindings.get? request.policy = none →
    outcome = .error (.unknownScalingPolicy request.policy)
  complete : ∀ group e, bindings.get? request.policy = some group →
    r.readEvent? id request.resource before n = some e → e.status = "SIGNAL_COMPLETE" →
      outcome = (r.withMembers id group .empty).mapError Fault.service
  failed : ∀ group e, bindings.get? request.policy = some group →
    r.readEvent? id request.resource before n = some e → e.status = "SIGNAL_FAILED" →
      outcome = .error (.scaleFailed id (e.statusReason.getD e.status))
  undecided : ∀ group, bindings.get? request.policy = some group →
    (∀ e, r.readEvent? id request.resource before n = some e →
      e.status ≠ "SIGNAL_COMPLETE" ∧ e.status ≠ "SIGNAL_FAILED") →
      (r.Idle id request.resource →
        outcome = (r.withMembers id group .empty).mapError Fault.service)
      ∧ (¬ r.Idle id request.resource → outcome = .error (.scaleTimedOut id
          ((r.readEvent? id request.resource before n).map StackEvent.status)))

theorem signals_signal (r : Rehearsal) (id name : String) :
    (signal id name r).signals = r.signals ++ [(id, name)] := by
  unfold signal
  dsimp only
  split
  · rfl
  · rfl

theorem signalled_scale (settings : LifecycleSettings) (r : Rehearsal) (id : String)
    (bindings : Bindings) (request : ScaleRequest) :
    r.Signalled id bindings request (r.outcome ((lifecycle settings).scale id bindings request))
      (r.after ((lifecycle settings).scale id bindings request)) := by
  unfold outcome after
  refine ⟨fun h => ?_, fun group h hf => ?_, fun group h hf => ?_⟩
  · rw [scale_of_unbound _ h]
    exact ⟨rfl, rfl⟩
  · rw [scale_run settings h, eventsOf_failing id request.resource hf]
    exact ⟨⟨_, rfl⟩, rfl⟩
  · rw [scale_run settings h, eventsOf_reading id request.resource hf]
    have hhead : (((r.events.get₂? id request.resource).getD []).take 1).head?
        = r.newestEvent? id request.resource := by
      simp only [newestEvent?, List.head?_take, Nat.one_ne_zero, if_false]
    refine ⟨?_, signals_signal r id _⟩
    rw [← hhead]
    rfl

theorem awaited_awaitScaled (settings : LifecycleSettings) (r : Rehearsal) (id : String)
    (bindings : Bindings) (request : ScaleRequest) (before : Option String) (budget : Budget) :
    r.Awaited id bindings request before budget.retries
      (r.outcome ((lifecycle settings).awaitScaled id bindings request before budget)) := by
  refine ⟨fun h => ?_, fun group e h he hs => ?_, fun group e h he hs => ?_, fun group h hu => ?_⟩
  · unfold outcome
    rw [awaitScaled_of_unbound _ h]
    rfl
  · rw [outcome_awaitScaled settings h, he, SignalWait.seeing_complete hs]
  · rw [outcome_awaitScaled settings h, he, SignalWait.seeing_failed hs]
    rfl
  · have hseen : SignalWait.seeing none (r.readEvent? id request.resource before budget.retries)
        = .exhausted ((r.readEvent? id request.resource before budget.retries).map
          StackEvent.status) := by
      rcases he : r.readEvent? id request.resource before budget.retries with _ | e
      · rfl
      · obtain ⟨hc, hx⟩ := hu e he
        exact SignalWait.seeing_undecided hc hx
    have hidle : Lifecycle.maybeAtWork (.ok ((r.metadata.get₂? id request.resource).getD .empty))
        = false ↔ r.Idle id request.resource := maybeAtWork_eq_false_iff
    rw [outcome_awaitScaled settings h, hseen]
    constructor
    · intro hi
      simp only [hidle.2 hi]
      rfl
    · intro hi
      have hwork : Lifecycle.maybeAtWork
          (.ok ((r.metadata.get₂? id request.resource).getD .empty)) = true := by
        simpa using fun hf => hi (hidle.1 hf)
      simp only [hwork, if_true]

/-- A policy that nothing is bound to is refused before any service is asked for anything. A signal
is sent if the events before it can be read, and then exactly once. A wait for it comes to what the
new event says that is read within the budget; if that decides nothing, to what the metadata of the
policy say. -/
theorem signalling_outcomes (settings : LifecycleSettings) (r : Rehearsal) (id : String)
    (bindings : Bindings) (request : ScaleRequest) (before : Option String) (budget : Budget) :
    (bindings.get? request.policy = none →
      ∀ {m : Type → Type} [Monad m] [LawfulMonad m] (l : Lifecycle m),
        (l.scale id bindings request).run
          = pure (.error (.unknownScalingPolicy request.policy)))
    ∧ r.Signalled id bindings request
      (r.outcome ((lifecycle settings).scale id bindings request))
      (r.after ((lifecycle settings).scale id bindings request))
    ∧ r.Awaited id bindings request before budget.retries
      (r.outcome ((lifecycle settings).awaitScaled id bindings request before budget)) :=
  ⟨fun h _ _ _ l => scale_of_unbound l h, signalled_scale settings r id bindings request,
    awaited_awaitScaled settings r id bindings request before budget⟩

/-- A signal that has been refused counts as acted on exactly if no read of events succeeds, the
policy is at rest and the members of its group can be read. Otherwise the wait fails, or times out
if no read succeeds. -/
theorem awaitScaled_of_refused (settings : LifecycleSettings) {r : Rehearsal} {id : String}
    {bindings : Bindings} {request : ScaleRequest} {before : Option String} {e : StackEvent}
    (budget : Budget) (hnewest : r.newestEvent? id request.resource = some e)
    (hstatus : e.status = "SIGNAL_FAILED") (hid : some e.id ≠ before) :
    ((∃ addresses,
        r.outcome ((lifecycle settings).awaitScaled id bindings request before budget)
          = .ok addresses)
      ↔ budget.retries ≤ r.failingEventReads ∧ r.Idle id request.resource
        ∧ ∃ group addresses, bindings.get? request.policy = some group
          ∧ r.withMembers id group .empty = .ok addresses)
    ∧ ∀ group, bindings.get? request.policy = some group →
      (r.failingEventReads < budget.retries →
        r.outcome ((lifecycle settings).awaitScaled id bindings request before budget)
          = .error (.scaleFailed id (e.statusReason.getD e.status)))
      ∧ (budget.retries ≤ r.failingEventReads → ¬ r.Idle id request.resource →
        r.outcome ((lifecycle settings).awaitScaled id bindings request before budget)
          = .error (.scaleTimedOut id none)) := by
  have hawaited := awaited_awaitScaled settings r id bindings request before budget
  generalize r.outcome ((lifecycle settings).awaitScaled id bindings request before budget)
    = outcome at hawaited ⊢
  have hnew : r.newEvent? id request.resource before = some e := by
    simp [newEvent?, hnewest, Option.filter, hid]
  have hread (hlt : r.failingEventReads < budget.retries) :
      r.readEvent? id request.resource before budget.retries = some e := (if_pos hlt).trans hnew
  have hunread (hle : budget.retries ≤ r.failingEventReads) :
      r.readEvent? id request.resource before budget.retries = none := if_neg (Nat.not_lt.2 hle)
  have hundecided {group : String} (hgroup : bindings.get? request.policy = some group)
      (hle : budget.retries ≤ r.failingEventReads) :=
    hawaited.undecided group hgroup fun e' he' => by rw [hunread hle] at he'; cases he'
  refine ⟨⟨?_, ?_⟩, fun group hgroup => ⟨fun hlt => ?_, fun hle hidle => ?_⟩⟩
  · rintro ⟨addresses, rfl⟩
    rcases hgroup : bindings.get? request.policy with _ | group
    · cases hawaited.unbound hgroup
    by_cases hlt : r.failingEventReads < budget.retries
    · cases hawaited.failed group e hgroup (hread hlt) hstatus
    have hle := Nat.not_lt.1 hlt
    by_cases hidle : r.Idle id request.resource
    · have hok := (hundecided hgroup hle).1 hidle
      rcases hm : r.withMembers id group .empty with e' | found
      · rw [hm] at hok
        cases hok
      · exact ⟨hle, hidle, group, found, rfl, hm⟩
    · cases (hundecided hgroup hle).2 hidle
  · rintro ⟨hle, hidle, group, addresses, hgroup, hm⟩
    refine ⟨addresses, ?_⟩
    rw [(hundecided hgroup hle).1 hidle, hm]
    rfl
  · exact hawaited.failed group e hgroup (hread hlt) hstatus
  · rw [(hundecided hgroup hle).2 hidle, hunread hle]
    rfl

/-- A signal that has been refused, on a policy at rest, and one read of events that is going to
fail. -/
def refused : Rehearsal :=
  let r := blank.addResource "vnf" ⟨"SP1_group", "members", groupType, "UPDATE_COMPLETE", .empty⟩
  let r := r.addEvent "vnf" "SP1_scale_out" (event "SP1_scale_out" "ev-1" StackEvent.signalFailed)
  let r := r.addResource "members" ⟨"m1", "m1-id", "SP1_res.yaml", "CREATE_COMPLETE",
    Table.empty.put "mgmt_ip-VDU1" (.string "10.0.0.1")⟩
  { r.setMetadata "vnf" "SP1_scale_out" (Table.empty.put Lifecycle.atWorkKey (.bool false)) with
    failingEventReads := 1 }

/-- The policy that has refused. -/
def refusedBindings : Bindings := Table.empty.put "SP1" "SP1_group"

/-- With one more read the refusal is heard. -/
theorem refused_fails :
    refused.newestEvent? "vnf" "SP1_scale_out"
        = some (event "SP1_scale_out" "ev-1" StackEvent.signalFailed)
      ∧ refused.outcome ((lifecycle .default).awaitScaled "vnf" refusedBindings ⟨"SP1", .grow⟩
          none ⟨2, 0⟩)
        = .error (.scaleFailed "vnf" "SP1_scale_out SIGNAL_FAILED") :=
  ⟨rfl, ((awaitScaled_of_refused .default ⟨2, 0⟩
    (rfl : refused.newestEvent? "vnf" (ScaleRequest.resource ⟨"SP1", .grow⟩)
      = some (event "SP1_scale_out" "ev-1" StackEvent.signalFailed)) rfl (by decide)).2
    "SP1_group" rfl).1 (by decide)⟩

/-- With the only read failing the refused signal counts as acted on. -/
theorem refused_counts_as_acted_on :
    refused.newestEvent? "vnf" "SP1_scale_out"
        = some (event "SP1_scale_out" "ev-1" StackEvent.signalFailed)
      ∧ ∃ addresses, refused.outcome ((lifecycle .default).awaitScaled "vnf" refusedBindings
          ⟨"SP1", .grow⟩ none ⟨1, 0⟩) = .ok addresses := by
  refine ⟨rfl, ?_⟩
  have hok : (refused.outcome ((lifecycle .default).awaitScaled "vnf" refusedBindings
      ⟨"SP1", .grow⟩ none ⟨1, 0⟩)).toBool = true := by decide +kernel
  rcases ho : refused.outcome ((lifecycle .default).awaitScaled "vnf" refusedBindings
      ⟨"SP1", .grow⟩ none ⟨1, 0⟩) with fault | addresses
  · rw [ho] at hok
    cases hok
  · exact ⟨addresses, rfl⟩

end Rehearsal

end Provision
