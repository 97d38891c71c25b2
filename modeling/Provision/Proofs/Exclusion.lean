import Mathlib.Data.List.Dedup
import Mathlib.Data.List.Induction
import Mathlib.Data.List.Perm.Subperm
import Provision.Proofs.Turns

/-!
# One at a time, and what is left of a lock

In every state that steps lead to, a stack that anybody has a claim on has one claim with the lock,
nobody is turned away from a slot that others still wait for, and whatever is done with one stack is
answered as if there were no other (`exclusive_after`).

A stack leaves the registry with its last claim when that claim is released, but not when it is
cancelled: where the lock was handed to the only one left, who gives up before looking, the stack is
left behind (`Forsaken`). This is the only way, and the stack stays until the next operation on it
(`left_behind_iff_forsaken`).
-/

namespace Provision

namespace Lane

variable {a : Lane}

theorem InTurn.owners (h : a.InTurn) :
    a.stages.countP (· != .queued) = if a.stages = [] then 0 else 1 := by
  rcases h with listed | ⟨n, hs⟩
  · rfl
  · have hqueue : (List.replicate n ClaimStage.queued).countP (· != .queued) = 0 := by
      rw [List.countP_replicate]
      rfl
    rw [List.countP_cons, hqueue, if_neg (List.cons_ne_nil _ _)]
    simpa using hs

theorem serve_replicate_eq_nil {n : Nat} : serve (List.replicate n .queued) = [] ↔ n = 0 := by
  rcases n with _ | n
  · simp [serve]
  · simp [List.replicate_succ, serve]

/-- A move on the claim that has the lock leaves nobody only if it was the last. -/
theorem act_first_eq_idle_iff {s : ClaimStage} {n : Nat} (hs : s ≠ .queued) (m : ClaimMove) :
    ((⟨true, s :: List.replicate n .queued⟩ : Lane).act (.onClaim m 0)).2 = ⟨true, []⟩
      ↔ (n = 0 ∧ s = .handed) ∧ m = .cancel := by
  rcases s with _ | _ | _
  · exact absurd rfl hs
  · rcases m with _ | _ | _ <;> simp [act, serve_replicate_eq_nil]
  · rcases m with _ | _ | _ <;> simp [act, serve_replicate_eq_nil]

/-- A move on a claim that queues, or on none, leaves the one that has the lock. -/
theorem act_later_ne_idle {s : ClaimStage} (n i : Nat) (m : ClaimMove) :
    ((⟨true, s :: List.replicate n .queued⟩ : Lane).act (.onClaim m (i + 1))).2 ≠ ⟨true, []⟩ := by
  have hstage := stage_later s n i
  by_cases hi : i < n
  · rw [if_pos hi] at hstage
    rcases m with _ | _ | _ <;> simp only [act, hstage] <;> simp
  · rw [if_neg hi] at hstage
    rcases m with _ | _ | _ <;> simp only [act, hstage] <;> simp

/-- A lane without claims whose stack is in the registry comes of such a lane, or of one where the
only claim was cancelled after it had been served. -/
theorem InTurn.act_eq_idle_iff (h : a.InTurn) (step : LaneStep) :
    (a.act step).2 = ⟨true, []⟩ ↔ (a = ⟨true, []⟩ ∧ ∀ m, step ≠ .onStack m)
      ∨ (a.stages = [.handed] ∧ step = .onClaim .cancel 0) := by
  rcases h with listed | ⟨n, hs⟩
  · rcases step with m | ⟨m, i⟩
    · rcases m with _ | _ | _ <;> simp [Lane.act, isFree]
    · rcases m with _ | _ | _ <;> simp [Lane.act]
  · rcases step with m | ⟨m, i⟩
    · rcases m with _ | _ | _ <;> simp [Lane.act, isFree_served hs]
    · rcases i with _ | i
      · rw [act_first_eq_idle_iff hs]
        simp [and_comm]
      · simpa using act_later_ne_idle n i m

end Lane

namespace Locks

variable {l : Locks} {c : Claim} {stack : String} {ticket : Nat} {steps : List LockStep}

/-! ## One at a time -/

/-- Nobody gets in the way of another. -/
structure Exclusive (l : Locks) : Prop where
  /-- On a stack with claims one claim has the lock; it is held at most once. -/
  owner : ∀ stack, (l.claimsOf stack).countP Claim.owns = if l.claimsOf stack = [] then 0 else 1
  holder : ∀ stack, (l.claimsOf stack).countP (fun c => c.stage == .held) ≤ 1
  /-- All claims on a stack are on the slot that the registry has for it. -/
  filed : ∀ c ∈ l.claims, l.registry.get? c.stack = some c.slot
  /-- A stack cannot be forgotten while a claim on it has the lock. -/
  kept_iff : ∀ stack, (l.forget stack).1 = false ↔ ∃ c ∈ l.claims, c.stack = stack ∧ c.owns = true
  kept : ∀ stack, (l.forget stack).1 = false → (l.forget stack).2 = l
  forgotten : ∀ stack, (l.forget stack).1 = true →
    (l.forget stack).2 = { l with registry := l.registry.erase stack }
  /-- What is done with one stack does not change what the next step on another is answered. -/
  apart : ∀ step next a b t u, l.concern? step = some (a, t) → l.concern? next = some (b, u) →
    b ≠ a → ((l.act step).2.act next).1 = (l.act next).1

theorem InOrder.owner (h : l.InOrder) (stack : String) :
    (l.claimsOf stack).countP Claim.owns = if l.claimsOf stack = [] then 0 else 1 := by
  have hturn := (h.turns stack).owners
  simp only [lane, List.countP_map, List.map_eq_nil_iff] at hturn
  exact hturn

theorem InOrder.holder (h : l.InOrder) (stack : String) :
    (l.claimsOf stack).countP (fun c => c.stage == .held) ≤ 1 := by
  have hle : (l.claimsOf stack).countP (fun c => c.stage == .held)
      ≤ (l.claimsOf stack).countP Claim.owns := by
    refine List.countP_mono_left fun c _ hheld => ?_
    rw [Claim.owns, beq_iff_eq.1 hheld]
    rfl
  have howner := h.owner stack
  split_ifs at howner with hnil
  · omega
  · omega

theorem Filed.isFree_eq_false_iff (h : l.Filed) {slot : Nat}
    (hslot : l.registry.get? stack = some slot) :
    l.isFree slot = false ↔ ∃ c ∈ l.claims, c.stack = stack ∧ c.owns = true := by
  rw [isFree, h.claimsOn_eq hslot]
  simp [mem_claimsOf, and_assoc]

theorem Filed.kept_iff (h : l.Filed) (stack : String) :
    (l.forget stack).1 = false ↔ ∃ c ∈ l.claims, c.stack = stack ∧ c.owns = true := by
  rcases hs : l.registry.get? stack with _ | slot
  · have hnone : ¬∃ c ∈ l.claims, c.stack = stack ∧ c.owns = true := by
      rintro ⟨c, hc, rfl, -⟩
      exact absurd ((h.filed c hc).symm.trans hs) (by simp)
    simpa [forget, hs] using hnone
  · rw [← h.isFree_eq_false_iff hs]
    rcases hfree : l.isFree slot with _ | _ <;> simp [forget, hs, hfree]

theorem forget_of_kept (hkept : (l.forget stack).1 = false) : (l.forget stack).2 = l := by
  unfold forget at hkept ⊢
  split at hkept
  · cases hkept
  · split_ifs at hkept ⊢
    rfl

theorem forget_of_forgotten (hforgotten : (l.forget stack).1 = true) :
    (l.forget stack).2 = { l with registry := l.registry.erase stack } := by
  unfold forget at hforgotten ⊢
  rcases hs : l.registry.get? stack with _ | slot
  · have hsame : l.registry.erase stack = l.registry := by
      refine Table.ext_get? fun x => ?_
      rw [Table.get?_erase]
      split_ifs with hx
      · rw [hx, hs]
      · rfl
    simp only [hsame]
  · simp only [hs] at hforgotten ⊢
    split_ifs at hforgotten ⊢
    rfl

/-- After any steps, one at a time has the lock of a stack, and every stack is answered as if it
were the only one. -/
theorem exclusive_after (steps : List LockStep) : (empty.after steps).Exclusive
    ∧ ∀ stack, Lane.bare.replay ((history stack empty steps).map Prod.fst)
      = ((history stack empty steps).map Prod.snd, (empty.after steps).lane stack) := by
  have h := inOrder_after_empty steps
  refine ⟨⟨h.owner, h.holder, h.filed.filed, h.filed.kept_iff, fun _ => forget_of_kept,
    fun _ => forget_of_forgotten, ?_⟩, fun stack => replay_history inOrder_empty stack steps⟩
  intro step next a b t u hstep hnext hne
  exact h.answer_of_other hstep hnext hne

/-! ## What is left of a lock -/

/-- Some step of these cancelled the only claim on the stack after it had been served, and no later
step was on the stack. -/
def Forsaken (stack : String) (steps : List LockStep) : Prop :=
  ∃ before ticket after c, steps = before ++ .onClaim .cancel ticket :: after
    ∧ (empty.after before).claim? ticket = some c ∧ c.stage = .handed
    ∧ (empty.after before).claimsOf stack = [c] ∧ ∀ m, .onStack m stack ∉ after

theorem after_snoc (l : Locks) (steps : List LockStep) (step : LockStep) :
    l.after (steps ++ [step]) = ((l.after steps).act step).2 := by
  rw [Locks.after, List.foldl_append]
  rfl

theorem forsaken_snoc {step : LockStep} : Forsaken stack (steps ++ [step]) ↔
    (Forsaken stack steps ∧ ∀ m, step ≠ .onStack m stack)
      ∨ ∃ ticket c, step = .onClaim .cancel ticket ∧ (empty.after steps).claim? ticket = some c
        ∧ c.stage = .handed ∧ (empty.after steps).claimsOf stack = [c] := by
  constructor
  · rintro ⟨before, ticket, after, c, heq, hclaim, hstage, honly, hlater⟩
    rcases List.eq_nil_or_concat after with rfl | ⟨after, last, rfl⟩
    · obtain ⟨rfl, heq⟩ := List.append_inj' heq rfl
      exact .inr ⟨ticket, c, by simpa using heq, hclaim, hstage, honly⟩
    · rw [List.concat_eq_append, ← List.cons_append, ← List.append_assoc] at heq
      obtain ⟨rfl, heq⟩ := List.append_inj' heq rfl
      obtain rfl : step = last := by simpa using heq
      simp only [List.concat_eq_append, List.mem_append, List.mem_singleton, not_or] at hlater
      exact .inl ⟨⟨before, ticket, after, c, rfl, hclaim, hstage, honly, fun m => (hlater m).1⟩,
        fun m => Ne.symm (hlater m).2⟩
  · rintro (⟨⟨before, ticket, after, c, rfl, hclaim, hstage, honly, hlater⟩, hlast⟩
      | ⟨ticket, c, rfl, hclaim, hstage, honly⟩)
    · refine ⟨before, ticket, after ++ [step], c, by simp, hclaim, hstage, honly, fun m => ?_⟩
      simpa [Ne.symm (hlast m)] using hlater m
    · exact ⟨steps, ticket, [], c, rfl, hclaim, hstage, honly, by simp⟩

/-- The only claim on a stack, served and about to be cancelled. -/
theorem only_handed_iff (hclaim : l.claim? ticket = some c) :
    (l.lane c.stack).stages = [.handed] ∧ l.place c = 0 ↔
      c.stage = .handed ∧ l.claimsOf c.stack = [c] := by
  have hmem : c ∈ l.claimsOf c.stack := mem_claimsOf.2 ⟨(claim?_eq_some hclaim).1, rfl⟩
  constructor
  · rintro ⟨hstages, -⟩
    obtain ⟨x, hx, hstage⟩ := List.map_eq_singleton_iff.1 hstages
    obtain rfl : c = x := by simpa [hx] using hmem
    exact ⟨hstage, hx⟩
  · rintro ⟨hstage, honly⟩
    refine ⟨?_, ?_⟩
    · rw [lane, honly, List.map_singleton, hstage]
    · rw [place, honly, List.idxOf_cons_self]

/-- A step leaves a stack in the registry without claims if it was so and is not operated on, or if
the step cancels the only claim after it has been served. -/
theorem InOrder.lane_act_eq_idle_iff (h : l.InOrder) (step : LockStep) (stack : String) :
    (l.act step).2.lane stack = ⟨true, []⟩ ↔
      (l.lane stack = ⟨true, []⟩ ∧ ∀ m, step ≠ .onStack m stack)
        ∨ ∃ ticket c, step = .onClaim .cancel ticket ∧ l.claim? ticket = some c
          ∧ c.stage = .handed ∧ l.claimsOf stack = [c] := by
  rcases hconcern : l.concern? step with _ | ⟨other, t⟩
  · rw [act_of_concern?_eq_none hconcern]
    rcases step with ⟨m, _⟩ | ⟨m, ticket⟩
    · cases hconcern
    · have hclaim : l.claim? ticket = none := Option.map_eq_none_iff.1 hconcern
      simp [hclaim]
  · have hfollows := follows_of_concern? h.filed (h.turns other) hconcern
    by_cases hstack : other = stack
    · subst hstack
      rw [hfollows.alters.here, (h.turns other).act_eq_idle_iff]
      rcases step with ⟨m, _⟩ | ⟨m, ticket⟩
      · obtain ⟨rfl, rfl⟩ : _ = other ∧ _ = t := by simpa [concern?] using hconcern
        simp
      · obtain ⟨c, hclaim, hpair⟩ := Option.map_eq_some_iff.1 hconcern
        obtain ⟨rfl, rfl⟩ : _ = other ∧ _ = t := by simpa using hpair
        have honly := only_handed_iff hclaim
        simp only [reduceCtorEq, not_false_eq_true, implies_true, ne_eq, LaneStep.onClaim.injEq,
          LockStep.onClaim.injEq]
        constructor
        · rintro (hidle | ⟨hstages, rfl, hplace⟩)
          · exact .inl hidle
          · exact .inr ⟨ticket, c, ⟨rfl, rfl⟩, hclaim, honly.1 ⟨hstages, hplace⟩⟩
        · rintro (hidle | ⟨_, x, ⟨rfl, rfl⟩, hx, hcancelled⟩)
          · exact .inl hidle
          · obtain rfl := Option.some.inj (hclaim.symm.trans hx)
            obtain ⟨hstages, hplace⟩ := honly.2 hcancelled
            exact .inr ⟨hstages, rfl, hplace⟩
    · rw [(hfollows.alters.elsewhere stack (Ne.symm hstack)).lane_eq]
      have hstep : ∀ m, step ≠ .onStack m stack := by
        rintro m rfl
        exact hstack (congrArg Prod.fst (Option.some.inj hconcern)).symm
      have hnobody : ¬∃ ticket c, step = .onClaim .cancel ticket ∧ l.claim? ticket = some c
          ∧ c.stage = .handed ∧ l.claimsOf stack = [c] := by
        rintro ⟨ticket, c, rfl, hclaim, -, honly⟩
        have hmem : c ∈ l.claimsOf stack := honly ▸ List.mem_singleton_self c
        rw [concern?, hclaim, Option.map_some] at hconcern
        exact hstack ((congrArg Prod.fst (Option.some.inj hconcern)).symm.trans
          (mem_claimsOf.1 hmem).2)
      simp only [hnobody, or_false, hstep, ne_eq, not_false_eq_true, implies_true, and_true]

theorem idle_iff_forsaken (stack : String) (steps : List LockStep) :
    (empty.after steps).lane stack = ⟨true, []⟩ ↔ Forsaken stack steps := by
  induction steps using List.reverseRecOn with
  | nil =>
    refine ⟨fun hidle => ?_, ?_⟩
    · cases hidle
    · rintro ⟨before, ticket, after, c, heq, -⟩
      simp at heq
  | append_singleton steps step ih =>
    rw [after_snoc, (inOrder_after_empty steps).lane_act_eq_idle_iff, ih, forsaken_snoc]

/-- A stack is in the registry if there are claims on it or its lock is forsaken, and not both. -/
theorem InOrder.listed_iff (h : l.InOrder) (stack : String) : l.registry.contains stack = true ↔
    (∃ c ∈ l.claims, c.stack = stack) ∨ l.lane stack = ⟨true, []⟩ := by
  constructor
  · intro hlisted
    rcases hclaims : l.claimsOf stack with _ | ⟨c, cs⟩
    · right
      rw [lane, hlisted, hclaims, List.map_nil]
    · left
      have hmem : c ∈ l.claimsOf stack := hclaims ▸ List.mem_cons_self
      exact ⟨c, mem_claimsOf.1 hmem⟩
  · rintro (⟨c, hc, rfl⟩ | hidle)
    · exact Table.contains_of_get? (h.filed.filed c hc)
    · exact congrArg Lane.listed hidle

theorem not_idle_of_claim (hc : c ∈ l.claims) : l.lane c.stack ≠ ⟨true, []⟩ := by
  intro hidle
  have hnil : l.claimsOf c.stack = [] := List.map_eq_nil_iff.1 (congrArg Lane.stages hidle)
  exact List.eq_nil_iff_forall_not_mem.1 hnil c (mem_claimsOf.2 ⟨hc, rfl⟩)

/-- There are as many stacks in the registry as there are stacks with claims, if all have claims. -/
theorem InOrder.size_eq_iff (h : l.InOrder) :
    l.size = (l.claims.map Claim.stack).dedup.length ↔ ∀ stack, l.lane stack ≠ ⟨true, []⟩ := by
  have hsize : l.size = l.registry.names.length := (List.length_map Prod.fst).symm
  have hnames : l.registry.names.Nodup := l.registry.ascending.imp String.ne_of_lt
  have hstacks : (l.claims.map Claim.stack).dedup.Nodup := List.nodup_dedup _
  have hmem : ∀ stack, stack ∈ (l.claims.map Claim.stack).dedup
      ↔ ∃ c ∈ l.claims, c.stack = stack := by
    intro stack
    rw [List.mem_dedup, List.mem_map]
  have hlisted : ∀ stack, stack ∈ l.registry.names ↔
      stack ∈ (l.claims.map Claim.stack).dedup ∨ l.lane stack = ⟨true, []⟩ := by
    intro stack
    rw [Table.mem_names, h.listed_iff, hmem]
  rw [hsize]
  constructor
  · intro hlength stack hidle
    have hsub : (l.claims.map Claim.stack).dedup.Subperm l.registry.names :=
      List.subperm_of_subset hstacks fun x hx => (hlisted x).2 (.inl hx)
    have hperm := hsub.perm_of_length_le (Nat.le_of_eq hlength)
    obtain ⟨c, hc, rfl⟩ := (hmem stack).1 (hperm.mem_iff.2 ((hlisted stack).2 (.inr hidle)))
    exact not_idle_of_claim hc hidle
  · intro hidle
    refine ((List.perm_ext_iff_of_nodup hnames hstacks).2 fun stack => ?_).length_eq
    rw [hlisted]
    simp [hidle stack]

/-- After any steps, the stacks in the registry are those with claims, except that one whose lock is
forsaken is in the registry without claims. -/
theorem left_behind_iff_forsaken (steps : List LockStep) :
    (∀ stack, ((empty.after steps).registry.contains stack = true
        ↔ ∃ c ∈ (empty.after steps).claims, c.stack = stack) ↔ ¬Forsaken stack steps)
      ∧ (∀ stack, Forsaken stack steps → (empty.after steps).registry.contains stack = true
        ∧ ∀ c ∈ (empty.after steps).claims, c.stack ≠ stack)
      ∧ ((empty.after steps).size = ((empty.after steps).claims.map Claim.stack).dedup.length
        ↔ ∀ stack, ¬Forsaken stack steps) := by
  have h := inOrder_after_empty steps
  have hleft : ∀ stack, Forsaken stack steps → (empty.after steps).registry.contains stack = true
      ∧ ∀ c ∈ (empty.after steps).claims, c.stack ≠ stack := by
    intro stack hforsaken
    have hidle := (idle_iff_forsaken stack steps).2 hforsaken
    refine ⟨(h.listed_iff stack).2 (.inr hidle), ?_⟩
    rintro c hc rfl
    exact not_idle_of_claim hc hidle
  refine ⟨fun stack => ⟨fun hiff hforsaken => ?_, fun hkept => ?_⟩, hleft, ?_⟩
  · obtain ⟨hlisted, hnone⟩ := hleft stack hforsaken
    obtain ⟨c, hc, rfl⟩ := hiff.1 hlisted
    exact hnone c hc rfl
  · rw [h.listed_iff, idle_iff_forsaken, or_iff_left hkept]
  · rw [h.size_eq_iff]
    exact forall_congr' fun stack => not_congr (idle_iff_forsaken stack steps)

/-- One holds the lock and another waits; the first gives it back, and the other gives up. -/
def gaveUp : List LockStep :=
  [.onStack .acquire "vnf", .onStack .acquire "vnf", .onClaim .release 0, .onClaim .cancel 1]

/-- Nobody has a claim any more, and the stack is still in the registry. -/
theorem gaveUp_left_behind : ¬((empty.after gaveUp).registry.contains "vnf" = true
    ↔ ∃ c ∈ (empty.after gaveUp).claims, c.stack = "vnf") := by
  decide +kernel

end Locks

end Provision
