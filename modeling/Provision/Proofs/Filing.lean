import Provision.Proofs.Lanes

/-!
# Slots, claims and lanes fit together

In a registry that is filed properly (`Locks.Filed`) every claim is on the slot that the registry
has for its stack. Each of the small things that operations are made of (listing a stack, adding a
claim, changing its stage, taking it away, handing the lock on, taking a stack out) then alters the
lane of one stack and leaves the slots and claims of all others as they are (`Locks.Alters`).
-/

namespace Provision

namespace Locks

/-- The claims on a stack, the oldest first. -/
def claimsOf (l : Locks) (stack : String) : List Claim := l.claims.filter fun c => c.stack == stack

/-- What the registry shows of a stack. -/
def lane (l : Locks) (stack : String) : Lane :=
  ⟨l.registry.contains stack, (l.claimsOf stack).map Claim.stage⟩

/-- The place of a claim among those on its stack. -/
def place (l : Locks) (c : Claim) : Nat := (l.claimsOf c.stack).idxOf c

/-- Every claim is on the slot that the registry has for its stack, no slot is that of two stacks,
and what is new is told from what there is. -/
structure Filed (l : Locks) : Prop where
  tickets : (l.claims.map Claim.ticket).Nodup
  fresh : ∀ c ∈ l.claims, c.ticket < l.nextTicket
  apart : ∀ a b slot, l.registry.get? a = some slot → l.registry.get? b = some slot → a = b
  known : ∀ stack slot, l.registry.get? stack = some slot → slot < l.nextSlot
  filed : ∀ c ∈ l.claims, l.registry.get? c.stack = some c.slot

variable {l : Locks} {c x : Claim} {stack other : String} {slot ticket : Nat} {s : ClaimStage}

theorem mem_claimsOf : c ∈ l.claimsOf stack ↔ c ∈ l.claims ∧ c.stack = stack := by
  simp [claimsOf]

theorem place_eq_length {before after : List Claim}
    (hsplit : l.claimsOf c.stack = before ++ c :: after) (hc : c ∉ before) :
    l.place c = before.length := by
  rw [place, hsplit, List.idxOf_append_of_notMem hc, List.idxOf_cons_self, Nat.add_zero]

theorem claim?_eq_some (h : l.claim? ticket = some c) : c ∈ l.claims ∧ c.ticket = ticket :=
  ⟨List.mem_of_find?_eq_some h, by simpa using List.find?_some h⟩

namespace Filed

theorem ticket_inj (h : l.Filed) (hc : c ∈ l.claims) (hx : x ∈ l.claims)
    (heq : c.ticket = x.ticket) : c = x :=
  List.inj_on_of_nodup_map h.tickets hc hx heq

theorem claim?_of_mem (h : l.Filed) (hc : c ∈ l.claims) : l.claim? c.ticket = some c := by
  rcases hf : l.claim? c.ticket with _ | x
  · simpa using List.find?_eq_none.1 hf c hc
  · obtain ⟨hx, heq⟩ := claim?_eq_some hf
    rw [h.ticket_inj hx hc heq]

/-- The claims on the slot of a stack are those on the stack. -/
theorem claimsOn_eq (h : l.Filed) (hslot : l.registry.get? stack = some slot) :
    l.claimsOn slot = l.claimsOf stack := by
  refine List.filter_congr fun c hc => ?_
  rw [Bool.eq_iff_iff, beq_iff_eq, beq_iff_eq]
  constructor
  · rintro rfl
    exact h.apart _ _ _ (h.filed c hc) hslot
  · rintro rfl
    exact Option.some.inj ((h.filed c hc).symm.trans hslot)

theorem isFree_eq (h : l.Filed) (hslot : l.registry.get? stack = some slot) :
    l.isFree slot = (l.lane stack).isFree := by
  unfold isFree Lane.isFree lane
  rw [h.claimsOn_eq hslot, List.any_map]
  rfl

/-- A claim stands at its place, and no other on its stack has its ticket. -/
theorem split (h : l.Filed) (hc : c ∈ l.claims) : ∃ before after,
    l.claimsOf c.stack = before ++ c :: after ∧ l.place c = before.length
      ∧ ∀ x ∈ before ++ after, x.ticket ≠ c.ticket := by
  obtain ⟨before, after, hsplit⟩ := List.append_of_mem (mem_claimsOf.2 ⟨hc, rfl⟩)
  have hn : ((l.claimsOf c.stack).map Claim.ticket).Nodup :=
    h.tickets.sublist (List.filter_sublist.map _)
  rw [hsplit, List.map_append, List.map_cons, List.nodup_middle, List.nodup_cons,
    ← List.map_append] at hn
  have hne : ∀ x ∈ before ++ after, x.ticket ≠ c.ticket := by
    intro x hx heq
    exact hn.1 (heq ▸ List.mem_map_of_mem hx)
  refine ⟨before, after, hsplit, ?_, hne⟩
  exact place_eq_length hsplit fun hb => hne c (List.mem_append_left _ hb) rfl

theorem stages_place (h : l.Filed) (hc : c ∈ l.claims) :
    (l.lane c.stack).stages[l.place c]? = some c.stage := by
  obtain ⟨before, after, hsplit, hplace, -⟩ := h.split hc
  simp [lane, hsplit, hplace]

end Filed

/-! ## Claims that come, go and get on -/

theorem claimsOf_setStage : (l.setStage ticket s).claimsOf stack
    = (l.claimsOf stack).map fun c => if c.ticket = ticket then { c with stage := s } else c := by
  unfold claimsOf setStage
  rw [List.filter_map]
  congr 1
  refine List.filter_congr fun c _ => ?_
  rw [Function.comp_apply]
  split <;> rfl

theorem claimsOf_dropClaim : (l.dropClaim ticket).claimsOf stack
    = (l.claimsOf stack).filter fun c => c.ticket != ticket := by
  unfold claimsOf dropClaim
  rw [List.filter_filter, List.filter_filter]
  exact List.filter_congr fun c _ => Bool.and_comm ..

/-- The slot and the claims of a stack are in both registries the same. -/
structure Agree (l l' : Locks) (stack : String) : Prop where
  claims : l'.claimsOf stack = l.claimsOf stack
  slot : l'.registry.get? stack = l.registry.get? stack

/-- Of all stacks only the one is another afterwards, and its lane is the given one. -/
structure Alters (l : Locks) (stack : String) (a : Lane) (l' : Locks) : Prop where
  filed : l'.Filed
  here : l'.lane stack = a
  elsewhere : ∀ other, other ≠ stack → l.Agree l' other

theorem Agree.lane_eq {l' : Locks} (h : l.Agree l' stack) : l'.lane stack = l.lane stack := by
  rw [lane, lane, h.claims, Table.contains, Table.contains, h.slot]

theorem Filed.alters_self (h : l.Filed) : l.Alters stack (l.lane stack) l :=
  ⟨h, rfl, fun _ _ => ⟨rfl, rfl⟩⟩

theorem Alters.trans {l' l'' : Locks} {a b : Lane} (h : l.Alters stack a l')
    (h' : l'.Alters stack b l'') : l.Alters stack b l'' := by
  refine ⟨h'.filed, h'.here, fun other hne => ?_⟩
  have hfst := h.elsewhere other hne
  have hsnd := h'.elsewhere other hne
  exact ⟨hsnd.claims.trans hfst.claims, hsnd.slot.trans hfst.slot⟩

namespace Filed

theorem ticket_ne_of_other (h : l.Filed) (hc : c ∈ l.claims) (hne : other ≠ c.stack) :
    ∀ x ∈ l.claimsOf other, x.ticket ≠ c.ticket := by
  intro x hx heq
  obtain ⟨hmem, rfl⟩ := mem_claimsOf.1 hx
  exact hne (congrArg Claim.stack (h.ticket_inj hmem hc heq))

theorem setStage (h : l.Filed) : (l.setStage ticket s).Filed := by
  have hkept : ∀ c ∈ (l.setStage ticket s).claims, ∃ x ∈ l.claims,
      c.ticket = x.ticket ∧ c.stack = x.stack ∧ c.slot = x.slot := by
    intro c hc
    obtain ⟨x, hx, rfl⟩ := List.mem_map.1 hc
    refine ⟨x, hx, ?_⟩
    split <;> exact ⟨rfl, rfl, rfl⟩
  have htickets : (l.setStage ticket s).claims.map Claim.ticket = l.claims.map Claim.ticket := by
    unfold Locks.setStage
    rw [List.map_map]
    refine List.map_congr_left fun c _ => ?_
    change (if c.ticket = ticket then _ else c).ticket = _
    split <;> rfl
  refine ⟨htickets ▸ h.tickets, fun c hc => ?_, h.apart, h.known, fun c hc => ?_⟩
  · obtain ⟨x, hx, heq, -, -⟩ := hkept c hc
    exact heq ▸ h.fresh x hx
  · obtain ⟨x, hx, -, hstack, hslot⟩ := hkept c hc
    rw [hstack, hslot]
    exact h.filed x hx

theorem dropClaim (h : l.Filed) : (l.dropClaim ticket).Filed where
  tickets := h.tickets.sublist (List.filter_sublist.map _)
  fresh c hc := h.fresh c (List.mem_of_mem_filter hc)
  apart := h.apart
  known := h.known
  filed c hc := h.filed c (List.mem_of_mem_filter hc)

theorem erase (h : l.Filed) (hnil : l.claimsOf stack = []) :
    ({ l with registry := l.registry.erase stack } : Locks).Filed where
  tickets := h.tickets
  fresh := h.fresh
  apart a b slot ha hb := by
    rw [Table.get?_erase] at ha hb
    split_ifs at ha hb
    exact h.apart a b slot ha hb
  known other slot hother := by
    rw [Table.get?_erase] at hother
    split_ifs at hother
    exact h.known other slot hother
  filed c hc := by
    have hne : c.stack ≠ stack := by
      rintro rfl
      exact List.eq_nil_iff_forall_not_mem.1 hnil c (mem_claimsOf.2 ⟨hc, rfl⟩)
    exact (Table.get?_erase.trans (if_neg hne)).trans (h.filed c hc)

theorem alters_setStage (h : l.Filed) (hc : c ∈ l.claims) :
    l.Alters c.stack
      { l.lane c.stack with stages := (l.lane c.stack).stages.set (l.place c) s }
      (l.setStage c.ticket s) := by
  have hkeep : ∀ xs : List Claim, (∀ x ∈ xs, x.ticket ≠ c.ticket) →
      (xs.map fun x => if x.ticket = c.ticket then { x with stage := s } else x) = xs := by
    intro xs hxs
    exact (List.map_congr_left fun x hx => if_neg (hxs x hx)).trans (List.map_id' xs)
  refine ⟨h.setStage, ?_, fun other hne => ?_⟩
  · obtain ⟨before, after, hsplit, hplace, hne⟩ := h.split hc
    have hbefore := hkeep before fun x hx => hne x (List.mem_append_left _ hx)
    have hafter := hkeep after fun x hx => hne x (List.mem_append_right _ hx)
    simp only [lane, claimsOf_setStage, hsplit, hplace, List.map_append, List.map_cons, hbefore,
      hafter, if_true]
    rw [← List.length_map Claim.stage, List.set_append_right _ _ (Nat.le_refl _), Nat.sub_self,
      List.set_cons_zero]
    rfl
  · have hclaims : (l.setStage c.ticket s).claimsOf other = l.claimsOf other := by
      rw [claimsOf_setStage, hkeep _ (h.ticket_ne_of_other hc hne)]
    exact ⟨hclaims, rfl⟩

theorem alters_dropClaim (h : l.Filed) (hc : c ∈ l.claims) :
    l.Alters c.stack
      { l.lane c.stack with stages := (l.lane c.stack).stages.eraseIdx (l.place c) }
      (l.dropClaim c.ticket) := by
  have hkeep : ∀ xs : List Claim, (∀ x ∈ xs, x.ticket ≠ c.ticket) →
      xs.filter (fun x => x.ticket != c.ticket) = xs := by
    intro xs hxs
    exact List.filter_eq_self.2 fun x hx => bne_iff_ne.2 (hxs x hx)
  refine ⟨h.dropClaim, ?_, fun other hne => ?_⟩
  · obtain ⟨before, after, hsplit, hplace, hne⟩ := h.split hc
    have hdrop : (before ++ c :: after).filter (fun x => x.ticket != c.ticket)
        = before ++ after := by
      rw [List.filter_append, List.filter_cons_of_neg (by simp),
        hkeep before fun x hx => hne x (List.mem_append_left _ hx),
        hkeep after fun x hx => hne x (List.mem_append_right _ hx)]
    unfold lane
    rw [claimsOf_dropClaim, hsplit, hdrop, hplace, List.map_append, List.map_append,
      List.map_cons, ← List.length_map Claim.stage,
      List.eraseIdx_append_of_length_le (Nat.le_refl _), Nat.sub_self, List.eraseIdx_cons_zero]
    rfl
  · have hclaims : (l.dropClaim c.ticket).claimsOf other = l.claimsOf other := by
      rw [claimsOf_dropClaim, hkeep _ (h.ticket_ne_of_other hc hne)]
    exact ⟨hclaims, rfl⟩

/-- Taking a stack without claims out of the registry. -/
theorem alters_erase (h : l.Filed) (hnil : l.claimsOf stack = []) :
    l.Alters stack ⟨false, []⟩ { l with registry := l.registry.erase stack } := by
  refine ⟨h.erase hnil, ?_, fun other hne => ⟨rfl, Table.get?_erase.trans (if_neg hne)⟩⟩
  have hgone : (l.registry.erase stack).contains stack = false := by
    rw [Table.contains, Table.get?_erase, if_pos rfl]
    rfl
  unfold lane
  rw [hgone]
  exact congrArg (fun cs : List Claim => (⟨false, cs.map Claim.stage⟩ : Lane)) hnil

/-- Handing on the lock of a stack serves its lane. -/
theorem alters_handOn (h : l.Filed) (hslot : l.registry.get? stack = some slot) :
    l.Alters stack { l.lane stack with stages := Lane.serve (l.lane stack).stages }
      (l.handOn slot) := by
  have hon := h.claimsOn_eq hslot
  rcases hf : (l.claimsOf stack).find? (fun c => c.stage == .queued) with _ | c
  · have hsame : l.handOn slot = l := by
      rw [handOn, hon, hf]
    have hnone : ClaimStage.queued ∉ (l.lane stack).stages := by
      intro hmem
      obtain ⟨c, hc, hstage⟩ := List.mem_map.1 hmem
      exact List.find?_eq_none.1 hf c hc (beq_iff_eq.2 hstage)
    rw [hsame, Lane.serve_of_notMem hnone]
    exact h.alters_self
  · have hserved : l.handOn slot = l.setStage c.ticket .handed := by
      rw [handOn, hon, hf]
    obtain ⟨hmem, rfl⟩ := mem_claimsOf.1 (List.mem_of_find?_eq_some hf)
    obtain ⟨hstage, before, after, hsplit, hbefore⟩ := List.find?_eq_some_iff_append.1 hf
    have hplace : l.place c = before.length :=
      place_eq_length hsplit fun hb => by simpa [hstage] using hbefore c hb
    have hqueued : ClaimStage.queued ∉ before.map Claim.stage := by
      intro hq
      obtain ⟨x, hx, heq⟩ := List.mem_map.1 hq
      simpa [heq] using hbefore x hx
    have hstages : (l.lane c.stack).stages
        = before.map Claim.stage ++ .queued :: after.map Claim.stage := by
      rw [lane, hsplit, List.map_append, List.map_cons, beq_iff_eq.1 hstage]
    have hset : (l.lane c.stack).stages.set (l.place c) .handed
        = Lane.serve (l.lane c.stack).stages := by
      rw [hstages, Lane.serve_append hqueued, hplace, ← List.length_map Claim.stage,
        List.set_append_right _ _ (Nat.le_refl _), Nat.sub_self, List.set_cons_zero]
    rw [hserved, ← hset]
    exact h.alters_setStage hmem

/-- Asking for the slot of a stack lists the stack. -/
theorem alters_slotOf (h : l.Filed) (stack : String) :
    (l.slotOf stack).2.registry.get? stack = some (l.slotOf stack).1
      ∧ l.Alters stack { l.lane stack with listed := true } (l.slotOf stack).2 := by
  rcases hs : l.registry.get? stack with _ | slot
  · simp only [slotOf, hs]
    have hnew : ∀ other, (l.registry.put stack l.nextSlot).get? other
        = if other = stack then some l.nextSlot else l.registry.get? other :=
      fun _ => Table.get?_put
    have hfiled : ({ l with
        nextSlot := l.nextSlot + 1
        registry := l.registry.put stack l.nextSlot } : Locks).Filed := by
      refine ⟨h.tickets, h.fresh, fun a b slot ha hb => ?_, fun other slot hother => ?_,
        fun c hc => ?_⟩
      · rw [hnew] at ha hb
        split_ifs at ha hb with hastack hbstack hbstack
        · exact hastack.trans hbstack.symm
        · exact absurd (h.known b slot hb) (by simp_all)
        · exact absurd (h.known a slot ha) (by simp_all)
        · exact h.apart a b slot ha hb
      · rw [hnew] at hother
        split_ifs at hother
        · simp_all
        · exact Nat.lt_succ_of_lt (h.known other slot hother)
      · have hne : c.stack ≠ stack := by
          rintro rfl
          exact absurd ((h.filed c hc).symm.trans hs) (by simp)
        exact (hnew c.stack).trans ((if_neg hne).trans (h.filed c hc))
    refine ⟨(hnew stack).trans (if_pos rfl), hfiled, ?_,
      fun other hne => ⟨rfl, (hnew other).trans (if_neg hne)⟩⟩
    unfold lane
    rw [Table.contains_of_get? ((hnew stack).trans (if_pos rfl))]
    rfl
  · have hlisted : ({ l.lane stack with listed := true } : Lane) = l.lane stack := by
      rw [lane, Table.contains_of_get? hs]
    simp only [slotOf, hs, hlisted, true_and]
    exact h.alters_self

theorem isFree_slotOf (h : l.Filed) (stack : String) :
    (l.slotOf stack).2.isFree (l.slotOf stack).1 = (l.lane stack).isFree := by
  obtain ⟨hslot, hlist⟩ := h.alters_slotOf stack
  rw [hlist.filed.isFree_eq hslot, hlist.here]
  rfl

theorem alters_addClaim (h : l.Filed) (hslot : l.registry.get? stack = some slot) :
    l.Alters stack { l.lane stack with stages := (l.lane stack).stages ++ [s] }
      (l.addClaim stack slot s).2 := by
  have hmem : ∀ c ∈ (l.addClaim stack slot s).2.claims,
      c ∈ l.claims ∨ c = ⟨l.nextTicket, stack, slot, s⟩ := by
    intro c hc
    simpa [addClaim] using hc
  refine ⟨⟨?_, fun c hc => ?_, h.apart, h.known, fun c hc => ?_⟩, ?_, fun other hne => ?_⟩
  · have hnew : l.nextTicket ∉ l.claims.map Claim.ticket := by
      intro hin
      obtain ⟨c, hc, heq⟩ := List.mem_map.1 hin
      exact absurd (h.fresh c hc) (by omega)
    simp only [addClaim, List.map_append, List.map_cons, List.map_nil]
    exact List.nodup_append_comm.1 (List.nodup_cons.2 ⟨hnew, h.tickets⟩)
  · rcases hmem c hc with hc | rfl
    · exact Nat.lt_succ_of_lt (h.fresh c hc)
    · exact Nat.lt_succ_self _
  · rcases hmem c hc with hc | rfl
    · exact h.filed c hc
    · exact hslot
  · simp [lane, claimsOf, addClaim]
  · exact ⟨by simp [claimsOf, addClaim, Ne.symm hne], rfl⟩

end Filed

end Locks

end Provision
