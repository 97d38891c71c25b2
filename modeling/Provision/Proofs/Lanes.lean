import Mathlib.Data.List.Nodup
import Provision.Locks
import Provision.Proofs.Tables

/-!
# Every stack has a lane of its own

What a registry of locks shows of one stack is whether it has the stack, and how far the claims on
the stack are, the oldest first. This is the lane of the stack. A step that concerns a stack does to
its lane what can be said of the lane alone (`Lane.act`), and leaves all other lanes as they are
(`Locks.follows_of_concern?`); so what is answered for a stack comes of what is done with that stack
(`Locks.replay_history`).

In every lane that steps can lead to, nobody has a claim, or the oldest claim has the lock and all
others queue behind it (`Lane.InTurn`).
-/

namespace Provision

/-- What is done with a stack. -/
inductive StackMove where
  | acquire
  | tryAcquire
  | forget
  deriving DecidableEq

/-- What is done with a claim. -/
inductive ClaimMove where
  | look
  | cancel
  | release
  deriving DecidableEq

/-- A step of a registry; a claim is known by its ticket. -/
inductive LockStep where
  | onStack (m : StackMove) (stack : String)
  | onClaim (m : ClaimMove) (ticket : Nat)
  deriving DecidableEq

/-- A step of a lane; a claim is known by its place, the oldest being at the first. -/
inductive LaneStep where
  | onStack (m : StackMove)
  | onClaim (m : ClaimMove) (place : Nat)
  deriving DecidableEq

/-- What is answered to a step. -/
inductive LockAnswer where
  /-- How far the claim is that was made or looked at, if there is one. -/
  | stage (s : Option ClaimStage)
  /-- Whether what was asked for has been done. -/
  | done (b : Bool)
  deriving DecidableEq

/-- What a registry shows of one stack. -/
structure Lane where
  /-- Whether the registry has the stack. -/
  listed : Bool
  /-- How far the claims are, the oldest first. -/
  stages : List ClaimStage
  deriving DecidableEq

namespace Lane

/-- Nothing is known of the stack. -/
def bare : Lane := ⟨false, []⟩

/-- Whether nobody has the lock. -/
def isFree (a : Lane) : Bool := !a.stages.any (· != .queued)

/-- The stages once the lock has been handed to the first that queues. -/
def serve : List ClaimStage → List ClaimStage
  | [] => []
  | .queued :: ss => .handed :: ss
  | s :: ss => s :: serve ss

/-- What a step is answered, and what it makes of the lane. -/
def act (a : Lane) : LaneStep → LockAnswer × Lane
  | .onStack .acquire =>
    let stage : ClaimStage := if a.isFree then .held else .queued
    (.stage (some stage), ⟨true, a.stages ++ [stage]⟩)
  | .onStack .tryAcquire =>
    if a.isFree then (.done true, ⟨true, a.stages ++ [.held]⟩)
    else (.done false, { a with listed := true })
  | .onStack .forget =>
    if a.listed && !a.isFree then (.done false, a) else (.done true, { a with listed := false })
  | .onClaim .look i =>
    match a.stages[i]? with
    | some .handed => (.stage (some .held), { a with stages := a.stages.set i .held })
    | stage => (.stage stage, a)
  | .onClaim .cancel i =>
    match a.stages[i]? with
    | some .queued => (.done true, { a with stages := a.stages.eraseIdx i })
    | some .handed => (.done true, { a with stages := serve (a.stages.eraseIdx i) })
    | _ => (.done false, a)
  | .onClaim .release i =>
    match a.stages[i]? with
    | some .held =>
      (.done true, ⟨a.listed && a.stages.length != 1, serve (a.stages.eraseIdx i)⟩)
    | _ => (.done false, a)

/-- What steps are answered in turn, and what they make of the lane. -/
def replay (a : Lane) : List LaneStep → List LockAnswer × Lane
  | [] => ([], a)
  | s :: ss => ((a.act s).1 :: ((a.act s).2.replay ss).1, ((a.act s).2.replay ss).2)

/-- Nobody has a claim, or the oldest claim has the lock and all others queue. -/
inductive InTurn : Lane → Prop
  | empty (listed : Bool) : InTurn ⟨listed, []⟩
  | served {s : ClaimStage} (n : Nat) : s ≠ .queued →
    InTurn ⟨true, s :: List.replicate n .queued⟩

/-! ## Lanes by themselves -/

variable {a : Lane}

theorem serve_append {ss ts : List ClaimStage} (h : .queued ∉ ss) :
    serve (ss ++ .queued :: ts) = ss ++ .handed :: ts := by
  induction ss with
  | nil => rfl
  | cons s ss ih =>
    rw [List.mem_cons, not_or] at h
    rw [List.cons_append, List.cons_append, serve, ih h.2]
    exact fun hs => h.1 hs.symm

theorem serve_of_notMem {ss : List ClaimStage} (h : .queued ∉ ss) : serve ss = ss := by
  induction ss with
  | nil => rfl
  | cons s ss ih =>
    rw [List.mem_cons, not_or] at h
    rw [serve, ih h.2]
    exact fun hs => h.1 hs.symm

theorem isFree_served {listed : Bool} {s : ClaimStage} {ss : List ClaimStage} (h : s ≠ .queued) :
    (⟨listed, s :: ss⟩ : Lane).isFree = false := by
  simp [isFree, h]

/-- The lock of a lane is free only if nobody has a claim. -/
theorem InTurn.isFree_iff (h : a.InTurn) : a.isFree = true ↔ a.stages = [] := by
  rcases h with listed | ⟨n, hs⟩
  · simp [isFree]
  · simp [isFree_served hs]

theorem inTurn_serve_replicate {listed : Bool} {n : Nat} (h : n ≠ 0 → listed = true) :
    InTurn ⟨listed, serve (List.replicate n .queued)⟩ := by
  rcases n with _ | n
  · exact .empty listed
  · rw [h (Nat.succ_ne_zero n), List.replicate_succ, serve]
    exact .served n (by decide)

theorem InTurn.onStack (h : a.InTurn) (m : StackMove) : (a.act (.onStack m)).2.InTurn := by
  rcases h with listed | ⟨n, hs⟩
  · have hheld : InTurn ⟨true, [.held]⟩ := .served 0 (by decide)
    rcases m with _ | _ | _
    · exact hheld
    · exact hheld
    · simpa [act, isFree] using InTurn.empty false
  · rcases m with _ | _ | _
    · simp only [act, isFree_served hs, List.cons_append, Bool.false_eq_true, if_false]
      rw [← List.replicate_succ']
      exact .served (n + 1) hs
    · simp only [act, isFree_served hs, Bool.false_eq_true, if_false]
      exact .served n hs
    · simp only [act, isFree_served hs, Bool.not_false, Bool.and_self, if_true]
      exact .served n hs

/-- A move on the claim that has the lock. -/
theorem inTurn_onClaim_first {s : ClaimStage} (n : Nat) (hs : s ≠ .queued) (m : ClaimMove) :
    ((⟨true, s :: List.replicate n .queued⟩ : Lane).act (.onClaim m 0)).2.InTurn := by
  rcases s with _ | _ | _
  · exact absurd rfl hs
  · rcases m with _ | _ | _
    · exact .served n (by decide)
    · exact inTurn_serve_replicate fun _ => rfl
    · exact .served n hs
  · rcases m with _ | _ | _
    · exact .served n hs
    · exact .served n hs
    · refine inTurn_serve_replicate fun hn => ?_
      simpa using hn

theorem stage_later (s : ClaimStage) (n i : Nat) :
    (s :: List.replicate n ClaimStage.queued)[i + 1]? = if i < n then some .queued else none := by
  rw [List.getElem?_cons_succ, List.getElem?_replicate]

/-- A move on a claim that queues, or on none. -/
theorem inTurn_onClaim_later {s : ClaimStage} (n i : Nat) (hs : s ≠ .queued) (m : ClaimMove) :
    ((⟨true, s :: List.replicate n .queued⟩ : Lane).act (.onClaim m (i + 1))).2.InTurn := by
  have hstage := stage_later s n i
  have herase : (s :: List.replicate n ClaimStage.queued).eraseIdx (i + 1)
      = s :: (List.replicate n ClaimStage.queued).eraseIdx i := List.eraseIdx_cons_succ
  by_cases hi : i < n
  · rw [if_pos hi] at hstage
    rcases m with _ | _ | _
    · simp only [act, hstage]
      exact .served n hs
    · simp only [act, hstage, herase, List.eraseIdx_replicate, if_pos hi]
      exact .served (n - 1) hs
    · simp only [act, hstage]
      exact .served n hs
  · rw [if_neg hi] at hstage
    rcases m with _ | _ | _ <;> simp only [act, hstage] <;> exact .served n hs

theorem InTurn.act (h : a.InTurn) (step : LaneStep) : (a.act step).2.InTurn := by
  rcases step with m | ⟨m, i⟩
  · exact h.onStack m
  · rcases h with listed | ⟨n, hs⟩
    · rcases m with _ | _ | _ <;> exact .empty listed
    · rcases i with _ | i
      · exact inTurn_onClaim_first n hs m
      · exact inTurn_onClaim_later n i hs m

end Lane

end Provision
