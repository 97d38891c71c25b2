import Provision.Rehearsal

/-!
# Lifecycles on a rehearsed service

What a lifecycle comes to on a rehearsed service, and the service after it. The members of a group
are read without a trace, so what is found of them depends on the resources alone
(`outcome_addGroups`).
-/

namespace Provision

namespace Rehearsal

variable {α β : Type} {r : Rehearsal}

/-- What calls come to that the rehearsed service answers. -/
def outcome (r : Rehearsal) (x : ExceptT Fault (StateM Rehearsal) α) : Except Fault α :=
  (x.run.run r).run.1

/-- The rehearsed service after the calls. -/
def after (r : Rehearsal) (x : ExceptT Fault (StateM Rehearsal) α) : Rehearsal :=
  (x.run.run r).run.2

theorem outcome_lift_bind {x : StateM Rehearsal β} {f : β → ExceptT Fault (StateM Rehearsal) α} :
    r.outcome (liftM x >>= f) = (x.run r).2.outcome (f (x.run r).1) := rfl

theorem after_lift_bind {x : StateM Rehearsal β} {f : β → ExceptT Fault (StateM Rehearsal) α} :
    r.after (liftM x >>= f) = (x.run r).2.after (f (x.run r).1) := rfl

theorem outcome_bind {x : ExceptT Fault (StateM Rehearsal) β}
    {f : β → ExceptT Fault (StateM Rehearsal) α} :
    r.outcome (x >>= f) = (r.outcome x >>= fun b => (r.after x).outcome (f b)) := by
  unfold outcome after
  rw [ExceptT.run_bind, StateT.run_bind]
  rcases x.run.run r with ⟨fault | b, later⟩
  · rfl
  · rfl

theorem outcome_map {f : β → α} {x : ExceptT Fault (StateM Rehearsal) β} :
    r.outcome (f <$> x) = (r.outcome x).map f := by
  rw [map_eq_pure_bind, outcome_bind]
  rcases r.outcome x with fault | b
  · rfl
  · rfl

theorem after_map {f : β → α} {x : ExceptT Fault (StateM Rehearsal) β} :
    r.after (f <$> x) = r.after x := by
  unfold after
  rw [map_eq_pure_bind, ExceptT.run_bind, StateT.run_bind]
  rcases x.run.run r with ⟨fault | b, later⟩
  · rfl
  · rfl

theorem outcome_adapt {x : ExceptT ServiceError (StateM Rehearsal) α} :
    r.outcome (x.adapt Fault.service) = (x.run.run r).1.mapError Fault.service := rfl

theorem pauseBefore_lifecycle (settings : LifecycleSettings) (ms left : Nat) :
    (lifecycle settings).pauseBefore ms left = pure () := by
  unfold Lifecycle.pauseBefore
  split
  · rfl
  · rfl

/-! ## Members of groups -/

/-- The addresses found so far and those in every member of a group. -/
def withMembers (r : Rehearsal) (id group : String) (found : Endpoints) :
    Except ServiceError Endpoints := do
  let nested ← resource id group r
  let listed ← resourcesOf nested.physicalId r
  found.addMembers (listed.map fun member => resource nested.physicalId member.name r)

variable (settings : LifecycleSettings)

theorem readAll_run (r : Rehearsal) (id : String) :
    ∀ listed : List ResourceSummary,
      ((lifecycle settings).readAll id listed).run r
        = pure (listed.map fun member => resource id member.name r, r)
  | [] => rfl
  | member :: listed => by
    have hone : StateT.run ((lifecycle settings).service.resource id member.name).run r
        = pure (resource id member.name r, r) := rfl
    rw [Lifecycle.readAll, StateT.run_bind, hone, pure_bind, StateT.run_bind,
      readAll_run r id listed]
    rfl

theorem addGroup_run (r : Rehearsal) (id group : String) (found : Endpoints) :
    StateT.run ((lifecycle settings).addGroup id group found).run r
      = pure (r.withMembers id group found, r) := by
  have hgroup : StateT.run ((lifecycle settings).service.resource id group).run r
      = pure (resource id group r, r) := rfl
  unfold withMembers
  rw [Lifecycle.addGroup, ExceptT.run_bind, StateT.run_bind, hgroup, pure_bind]
  rcases resource id group r with e | nested
  · rfl
  have hlisted : StateT.run ((lifecycle settings).service.resources nested.physicalId 0).run r
      = pure (resourcesOf nested.physicalId r, r) := rfl
  change _ = pure (resourcesOf nested.physicalId r >>= _, r)
  simp only [ExceptT.run_bind, StateT.run_bind, hlisted, pure_bind]
  rcases resourcesOf nested.physicalId r with e | listed
  · rfl
  have hdetails : StateT.run
      (ExceptT.run (liftM ((lifecycle settings).readAll nested.physicalId listed))) r
      = (((lifecycle settings).readAll nested.physicalId listed).run r >>= fun p =>
          pure ((.ok p.1 : Except ServiceError (List (Except ServiceError ResourceDetail))),
            p.2)) := rfl
  simp only [StateT.run_bind]
  rw [hdetails, readAll_run]
  rfl

theorem addGroups_run (r : Rehearsal) (id : String) :
    ∀ (groups : List String) (found : Endpoints),
      StateT.run ((lifecycle settings).addGroups id groups found).run r
        = pure (groups.foldlM (fun found group => r.withMembers id group found) found, r)
  | [], _ => rfl
  | group :: groups, found => by
    rw [Lifecycle.addGroups, ExceptT.run_bind, StateT.run_bind, addGroup_run, pure_bind,
      List.foldlM_cons]
    rcases r.withMembers id group found with e | more
    · rfl
    · exact addGroups_run r id groups more

/-- The members of one group are found without a trace. -/
theorem outcome_addGroups {id group : String} :
    r.outcome (((lifecycle settings).addGroups id [group] .empty).adapt Fault.service)
      = (r.withMembers id group .empty).mapError Fault.service := by
  rw [outcome_adapt, addGroups_run, List.foldlM_cons]
  rcases r.withMembers id group .empty with e | found
  · rfl
  · rfl

end Rehearsal

end Provision
