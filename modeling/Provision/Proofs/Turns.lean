import Provision.Proofs.Filing

/-!
# Steps keep to the lane of their stack

A step that concerns a stack does in its lane what the lane alone would do, and leaves all other
stacks alone (`follows_of_concern?`). Forgetting a stack is the one step for which this takes that
the lane is in turn: what is taken out of the registry must not have claims. With all lanes in turn
the registry is filed properly after the step as well (`InOrder.act`), and so in every state that
steps lead to (`inOrder_after_empty`). What a run of steps answers for one stack is then what its
lane answers to the steps that concern it (`replay_history`).
-/

namespace Provision

namespace Locks

/-- What a step is answered, and what it makes of the registry. -/
def act (l : Locks) : LockStep → LockAnswer × Locks
  | .onStack .acquire stack => (.stage (some (l.acquire stack).2.1), (l.acquire stack).2.2)
  | .onStack .tryAcquire stack =>
    (.done (l.tryAcquire stack).1.isSome, (l.tryAcquire stack).2)
  | .onStack .forget stack => (.done (l.forget stack).1, (l.forget stack).2)
  | .onClaim .look ticket =>
    (.stage (((l.look ticket).claim? ticket).map Claim.stage), l.look ticket)
  | .onClaim .cancel ticket => (.done (l.cancel ticket).1, (l.cancel ticket).2)
  | .onClaim .release ticket => (.done (l.release ticket).1, (l.release ticket).2)

/-- The registry after steps in turn. -/
def after (l : Locks) (steps : List LockStep) : Locks := steps.foldl (fun l s => (l.act s).2) l

/-- The stack that a step concerns, and what the step is in the lane of the stack. -/
def concern? (l : Locks) : LockStep → Option (String × LaneStep)
  | .onStack m stack => some (stack, .onStack m)
  | .onClaim m ticket => (l.claim? ticket).map fun c => (c.stack, .onClaim m (l.place c))

/-- What has been done with a stack in steps in turn, and how it was answered. -/
def history (stack : String) : Locks → List LockStep → List (LaneStep × LockAnswer)
  | _, [] => []
  | l, s :: ss =>
    match l.concern? s with
    | some (concerned, step) =>
      if concerned = stack then (step, (l.act s).1) :: history stack (l.act s).2 ss
      else history stack (l.act s).2 ss
    | none => history stack (l.act s).2 ss

variable {l : Locks} {c : Claim} {stack other : String}

/-! ## Steps -/

/-- What a step is answered and what it alters is what the lane of a stack answers and becomes. -/
structure Follows (l : Locks) (step : LockStep) (stack : String) (t : LaneStep) : Prop where
  answer : (l.act step).1 = ((l.lane stack).act t).1
  alters : l.Alters stack ((l.lane stack).act t).2 (l.act step).2

namespace Filed

theorem follows_acquire (h : l.Filed) :
    l.Follows (.onStack .acquire stack) stack (.onStack .acquire) := by
  obtain ⟨hslot, hlist⟩ := h.alters_slotOf stack
  have hfree := h.isFree_slotOf stack
  have hadd := hlist.trans (hlist.filed.alters_addClaim hslot
    (s := if (l.lane stack).isFree then .held else .queued))
  rw [hlist.here] at hadd
  constructor
  · simp only [act, acquire, Lane.act, hfree]
  · simpa only [act, acquire, Lane.act, hfree] using hadd

theorem follows_tryAcquire (h : l.Filed) :
    l.Follows (.onStack .tryAcquire stack) stack (.onStack .tryAcquire) := by
  obtain ⟨hslot, hlist⟩ := h.alters_slotOf stack
  have hfree := h.isFree_slotOf stack
  have hadd := hlist.trans (hlist.filed.alters_addClaim hslot (s := .held))
  rw [hlist.here] at hadd
  rcases hb : (l.lane stack).isFree with _ | _
  · constructor
    · simp [act, tryAcquire, Lane.act, hfree, hb]
    · simpa [act, tryAcquire, Lane.act, hfree, hb] using hlist
  · constructor
    · simp [act, tryAcquire, Lane.act, hfree, hb]
    · simpa [act, tryAcquire, Lane.act, hfree, hb] using hadd

theorem follows_forget (h : l.Filed) (hturn : (l.lane stack).InTurn) :
    l.Follows (.onStack .forget stack) stack (.onStack .forget) := by
  rcases hs : l.registry.get? stack with _ | slot
  · have hlisted : (l.lane stack).listed = false := by
      simp [lane, Table.contains, hs]
    have hsame : ({ l.lane stack with listed := false } : Lane) = l.lane stack := by
      rw [← hlisted]
    constructor
    · simp [act, forget, hs, Lane.act, hlisted]
    · simpa [act, forget, hs, Lane.act, hlisted, hsame] using h.alters_self
  · have hlisted : (l.lane stack).listed = true := Table.contains_of_get? hs
    have hfree := h.isFree_eq hs
    rcases hb : (l.lane stack).isFree with _ | _
    · constructor
      · simp [act, forget, hs, Lane.act, hfree, hb, hlisted]
      · simpa [act, forget, hs, Lane.act, hfree, hb, hlisted] using h.alters_self
    · have hstages : (l.lane stack).stages = [] := hturn.isFree_iff.1 hb
      have herase := h.alters_erase (List.map_eq_nil_iff.1 hstages)
      constructor
      · simp [act, forget, hs, Lane.act, hfree, hb]
      · simpa [act, forget, hs, Lane.act, hfree, hb, hstages] using herase

theorem follows_look (h : l.Filed) (hc : c ∈ l.claims) :
    l.Follows (.onClaim .look c.ticket) c.stack (.onClaim .look (l.place c)) := by
  have hplace := h.stages_place hc
  have hclaim := h.claim?_of_mem hc
  by_cases hstage : c.stage = .handed
  · have hset := h.alters_setStage hc (s := .held)
    have hnow : (l.setStage c.ticket .held).claim? c.ticket = some { c with stage := .held } := by
      refine hset.filed.claim?_of_mem (c := { c with stage := .held }) ?_
      exact List.mem_map.2 ⟨c, hc, if_pos rfl⟩
    rw [hstage] at hplace
    constructor
    · simp [act, look, hclaim, hstage, hnow, Lane.act, hplace]
    · simpa [act, look, hclaim, hstage, Lane.act, hplace] using hset
  · have hact : (l.lane c.stack).act (.onClaim .look (l.place c))
        = (.stage (some c.stage), l.lane c.stack) := by
      simp only [Lane.act, hplace]
      rcases hs : c.stage with _ | _ | _
      · rfl
      · exact absurd hs hstage
      · rfl
    constructor
    · simp [act, look, hclaim, hstage, hact]
    · simpa [act, look, hclaim, hstage, hact] using h.alters_self

theorem follows_cancel (h : l.Filed) (hc : c ∈ l.claims) :
    l.Follows (.onClaim .cancel c.ticket) c.stack (.onClaim .cancel (l.place c)) := by
  have hplace := h.stages_place hc
  have hclaim := h.claim?_of_mem hc
  have hdrop := h.alters_dropClaim hc
  have hpass := hdrop.trans (hdrop.filed.alters_handOn (h.filed c hc))
  rw [hdrop.here] at hpass
  rcases hstage : c.stage with _ | _ | _
  · rw [hstage] at hplace
    constructor
    · simp [act, cancel, hclaim, hstage, Lane.act, hplace]
    · simpa [act, cancel, hclaim, hstage, Lane.act, hplace] using hdrop
  · rw [hstage] at hplace
    constructor
    · simp [act, cancel, hclaim, hstage, Lane.act, hplace]
    · simpa [act, cancel, hclaim, hstage, Lane.act, hplace] using hpass
  · rw [hstage] at hplace
    constructor
    · simp [act, cancel, hclaim, hstage, Lane.act, hplace]
    · simpa [act, cancel, hclaim, hstage, Lane.act, hplace] using h.alters_self

/-- The claim on a stack that is given back takes the stack out of the registry if there is no
other. -/
theorem alters_release (h : l.Filed) (hc : c ∈ l.claims) :
    l.Alters c.stack
      ⟨(l.lane c.stack).listed && (l.lane c.stack).stages.length != 1,
        Lane.serve ((l.lane c.stack).stages.eraseIdx (l.place c))⟩
      (((l.prune c).dropClaim c.ticket).handOn c.slot) := by
  have hslot := h.filed c hc
  have hon := h.claimsOn_eq hslot
  have hdrop := h.alters_dropClaim hc
  have hlength : (l.lane c.stack).stages.length = (l.claimsOf c.stack).length :=
    List.length_map Claim.stage
  by_cases hone : (l.claimsOf c.stack).length = 1
  · have hprune : l.prune c = { l with registry := l.registry.erase c.stack } := by
      rw [prune, hon, if_pos ⟨hslot, hone⟩]
    obtain ⟨x, hx⟩ := List.length_eq_one_iff.1 hone
    have hmem : c ∈ l.claimsOf c.stack := mem_claimsOf.2 ⟨hc, rfl⟩
    obtain rfl : c = x := by
      simpa [hx] using hmem
    have hplace : l.place c = 0 := by
      rw [place, hx, List.idxOf_cons_self]
    have hnil : (l.dropClaim c.ticket).claimsOf c.stack = [] := by
      rw [claimsOf_dropClaim, hx]
      simp
    have hquiet : ((l.prune c).dropClaim c.ticket).handOn c.slot
        = { l.dropClaim c.ticket with
            registry := (l.dropClaim c.ticket).registry.erase c.stack } := by
      have hnone : ((l.prune c).dropClaim c.ticket).claimsOn c.slot = [] := by
        rw [hprune]
        exact (hdrop.filed.claimsOn_eq hslot).trans hnil
      rw [handOn, hnone, List.find?_nil, hprune]
      rfl
    rw [hquiet, hlength, hone, hplace, lane, hx]
    simpa [Lane.serve] using hdrop.trans (hdrop.filed.alters_erase hnil)
  · have hprune : l.prune c = l := by
      rw [prune, hon, if_neg fun hp => hone hp.2]
    have hpass := hdrop.trans (hdrop.filed.alters_handOn hslot)
    rw [hdrop.here] at hpass
    have hkept : ((l.lane c.stack).listed && (l.lane c.stack).stages.length != 1)
        = (l.lane c.stack).listed := by
      simp [hlength, hone]
    rw [hprune, hkept]
    exact hpass

theorem follows_release (h : l.Filed) (hc : c ∈ l.claims) :
    l.Follows (.onClaim .release c.ticket) c.stack (.onClaim .release (l.place c)) := by
  have hplace := h.stages_place hc
  have hclaim := h.claim?_of_mem hc
  by_cases hstage : c.stage = .held
  · rw [hstage] at hplace
    constructor
    · simp [act, release, hclaim, hstage, Lane.act, hplace]
    · simpa [act, release, hclaim, hstage, Lane.act, hplace] using h.alters_release hc
  · have hact : (l.lane c.stack).act (.onClaim .release (l.place c))
        = (.done false, l.lane c.stack) := by
      simp only [Lane.act, hplace]
      rcases hs : c.stage with _ | _ | _
      · rfl
      · rfl
      · exact absurd hs hstage
    constructor
    · simp [act, release, hclaim, hstage, hact]
    · simpa [act, release, hclaim, hstage, hact] using h.alters_self

end Filed

/-- A step that concerns a stack keeps to its lane. -/
theorem follows_of_concern? {step : LockStep} {t : LaneStep} (h : l.Filed)
    (hturn : (l.lane stack).InTurn) (hconcern : l.concern? step = some (stack, t)) :
    l.Follows step stack t := by
  rcases step with ⟨m, _⟩ | ⟨m, ticket⟩
  · obtain ⟨rfl, rfl⟩ : _ = stack ∧ _ = t := by simpa [concern?] using hconcern
    rcases m with _ | _ | _
    · exact h.follows_acquire
    · exact h.follows_tryAcquire
    · exact h.follows_forget hturn
  · obtain ⟨c, hclaim, hpair⟩ := Option.map_eq_some_iff.1 hconcern
    obtain ⟨rfl, rfl⟩ : _ = stack ∧ _ = t := by simpa using hpair
    obtain ⟨hc, rfl⟩ := claim?_eq_some hclaim
    rcases m with _ | _ | _
    · exact h.follows_look hc
    · exact h.follows_cancel hc
    · exact h.follows_release hc

/-- A step concerns the stack in both registries alike, if they have the stack alike. -/
theorem Agree.concern?_eq_some {l' : Locks} {step : LockStep} {t : LaneStep}
    (hagree : l.Agree l' stack) (h' : l'.Filed) (hconcern : l.concern? step = some (stack, t)) :
    l'.concern? step = some (stack, t) := by
  rcases step with ⟨m, _⟩ | ⟨m, ticket⟩
  · exact hconcern
  · obtain ⟨c, hclaim, hpair⟩ := Option.map_eq_some_iff.1 hconcern
    obtain ⟨rfl, rfl⟩ : _ = stack ∧ _ = t := by simpa using hpair
    obtain ⟨hc, rfl⟩ := claim?_eq_some hclaim
    have hmem : c ∈ l'.claimsOf c.stack := by
      rw [hagree.claims]
      exact mem_claimsOf.2 ⟨hc, rfl⟩
    rw [concern?, h'.claim?_of_mem (mem_claimsOf.1 hmem).1, Option.map_some, place, hagree.claims]
    rfl

/-- A step that concerns no stack does nothing. -/
theorem act_of_concern?_eq_none {step : LockStep} (hconcern : l.concern? step = none) :
    (l.act step).2 = l := by
  rcases step with ⟨m, _⟩ | ⟨m, ticket⟩
  · exact absurd hconcern (by simp [concern?])
  · have hclaim : l.claim? ticket = none := Option.map_eq_none_iff.1 hconcern
    rcases m with _ | _ | _ <;> simp [act, look, cancel, release, hclaim]

/-! ## Runs -/

/-- A registry that fits together, with all lanes in turn. -/
structure InOrder (l : Locks) : Prop where
  filed : l.Filed
  turns : ∀ stack, (l.lane stack).InTurn

theorem inOrder_empty : empty.InOrder where
  filed := ⟨List.nodup_nil, by simp [empty], by simp [empty], by simp [empty], by simp [empty]⟩
  turns _ := .empty false

theorem InOrder.act (h : l.InOrder) (step : LockStep) : (l.act step).2.InOrder := by
  rcases hconcern : l.concern? step with _ | ⟨stack, t⟩
  · rw [act_of_concern?_eq_none hconcern]
    exact h
  · have halters := (follows_of_concern? h.filed (h.turns stack) hconcern).alters
    refine ⟨halters.filed, fun other => ?_⟩
    by_cases hother : other = stack
    · rw [hother, halters.here]
      exact (h.turns stack).act t
    · rw [(halters.elsewhere other hother).lane_eq]
      exact h.turns other

/-- A step on one stack does not change what a step on another is answered. -/
theorem InOrder.answer_of_other {step next : LockStep} {t u : LaneStep} (h : l.InOrder)
    (hstep : l.concern? step = some (stack, t)) (hnext : l.concern? next = some (other, u))
    (hne : other ≠ stack) : ((l.act step).2.act next).1 = (l.act next).1 := by
  have hagree := (follows_of_concern? h.filed (h.turns stack) hstep).alters.elsewhere other hne
  have hstill := hagree.concern?_eq_some (h.act step).filed hnext
  rw [(follows_of_concern? h.filed (h.turns other) hnext).answer,
    (follows_of_concern? (h.act step).filed ((h.act step).turns other) hstill).answer,
    hagree.lane_eq]

theorem InOrder.after (h : l.InOrder) (steps : List LockStep) : (l.after steps).InOrder := by
  induction steps generalizing l with
  | nil => exact h
  | cons step steps ih => exact ih (h.act step)

theorem inOrder_after_empty (steps : List LockStep) : (empty.after steps).InOrder :=
  inOrder_empty.after steps

/-- What steps answer for a stack, and what becomes of its lane, is what the lane answers to those
that concern it and what it becomes. -/
theorem replay_history (h : l.InOrder) (stack : String) (steps : List LockStep) :
    (l.lane stack).replay ((history stack l steps).map Prod.fst)
      = ((history stack l steps).map Prod.snd, (l.after steps).lane stack) := by
  induction steps generalizing l with
  | nil => rfl
  | cons step steps ih =>
    have hrest := ih (h.act step)
    rcases hconcern : l.concern? step with _ | ⟨concerned, t⟩
    · rw [act_of_concern?_eq_none hconcern] at hrest
      simp only [history, hconcern, after, List.foldl_cons, act_of_concern?_eq_none hconcern]
      exact hrest
    · have hfollows := follows_of_concern? h.filed (h.turns concerned) hconcern
      simp only [history, hconcern]
      by_cases hstack : concerned = stack
      · subst hstack
        rw [if_pos rfl, List.map_cons, List.map_cons, Lane.replay, ← hfollows.alters.here, hrest,
          ← hfollows.answer]
        rfl
      · rw [if_neg hstack, ← (hfollows.alters.elsewhere stack (Ne.symm hstack)).lane_eq, hrest]
        rfl

end Locks

end Provision
