import Provision.Proofs.Creation
import Provision.Proofs.Returns
import Provision.Proofs.Signalling

/-!
# The addresses that are gathered from groups

Addresses are filed one attribute after the other. What each attribute adds to the list of its
component goes to the end of that list, so the lists hold what the members have in the order in
which the members are read (`Endpoints.Lists.foldl`). Looks at the stack do not change its groups,
so what is gathered once the stack is created is what the groups held before
(`outcome_awaitGroupedAddresses`).
-/

namespace Provision

theorem Entries.flatMap_of_ascending {α β : Type} {x : String} (g : α → List β) :
    ∀ {es : List (String × α)}, Ascending (names es) →
      es.flatMap (fun e => if e.1 = x then g e.2 else []) = ((get? x es).map g).getD []
  | [], _ => rfl
  | (k, v) :: es, h => by
    rw [names, List.map_cons, Ascending, List.pairwise_cons] at h
    have ih := flatMap_of_ascending (x := x) g h.2
    by_cases hk : x = k
    · have hnone : get? x es = none := get?_eq_none.2 fun hm => String.lt_irrefl x (hk ▸ h.1 x hm)
      rw [List.flatMap_cons, ih, hnone]
      simp [get?, hk]
    · rw [List.flatMap_cons, ih]
      simp [get?, hk, Ne.symm hk]

theorem Table.flatMap_entries {α β : Type} (t : Table α) (x : String) (g : α → List β) :
    t.entries.flatMap (fun e => if e.1 = x then g e.2 else []) = ((t.get? x).map g).getD [] :=
  Entries.flatMap_of_ascending g t.ascending

/-- The address of a component that the attributes of a resource hold. -/
def ResourceDetail.address? (detail : ResourceDetail) (component : String) : Option Value :=
  detail.attributes.get? (managementOutput component)

namespace Endpoints

variable {e : Endpoints} {f : String → List Value}

/-- The addresses of every component are these, and no component is listed without addresses. -/
def Lists (e : Endpoints) (f : String → List Value) : Prop :=
  ∀ component addresses,
    e.get? component = some addresses ↔ f component = addresses ∧ addresses ≠ []

theorem lists_empty : Lists .empty fun _ => [] := by
  intro component addresses
  rw [Table.get?_empty]
  exact ⟨fun h => (nomatch h), fun ⟨h, hne⟩ => (hne h.symm).elim⟩

theorem Lists.congr {g : String → List Value} (h : e.Lists f) (hfg : ∀ c, f c = g c) :
    e.Lists g := by
  rw [← funext hfg]
  exact h

theorem Lists.getD (h : e.Lists f) (component : String) :
    (e.get? component).getD [] = f component := by
  rcases he : e.get? component with _ | addresses
  · by_contra hne
    rw [(h component (f component)).2 ⟨rfl, Ne.symm hne⟩] at he
    cases he
  · exact ((h component addresses).1 he).1.symm

theorem Lists.add (h : e.Lists f) {component : String} {addresses : List Value}
    (hne : addresses ≠ []) :
    (e.add component addresses).Lists fun c =>
      f c ++ if component = c then addresses else [] := by
  intro c listed
  dsimp only
  rw [Endpoints.add, Table.get?_put, h.getD]
  by_cases hc : component = c
  · rw [if_pos hc.symm, if_pos hc, hc, Option.some_inj, iff_self_and]
    rintro rfl
    exact List.append_ne_nil_of_right_ne_nil _ hne
  · rw [if_neg (Ne.symm hc), if_neg hc, List.append_nil]
    exact h c listed

/-- If every step adds to the end of the lists, the steps add one after the other. -/
theorem Lists.foldl {α : Type} {step : Endpoints → α → Endpoints} {g : α → String → List Value} :
    ∀ {as : List α},
      (∀ a ∈ as, ∀ {e : Endpoints} {f : String → List Value}, e.Lists f →
        (step e a).Lists fun c => f c ++ g a c) →
      ∀ {e : Endpoints} {f : String → List Value}, e.Lists f →
        (as.foldl step e).Lists fun c => f c ++ as.flatMap fun a => g a c
  | [], _, e, f, h => by simpa using h
  | a :: as, hstep, e, f, h => by
    have hrest := Lists.foldl (fun b hb => hstep b (List.mem_cons_of_mem a hb))
      (hstep a List.mem_cons_self h)
    simpa only [List.foldl_cons, List.flatMap_cons, List.append_assoc] using hrest

def addAttribute (e : Endpoints) (entry : String × Value) : Endpoints :=
  (managed? entry.1).elim e fun component => e.add component [entry.2]

theorem addAttributes_eq (attributes : Table Value) :
    e.addAttributes attributes = attributes.entries.foldl addAttribute e := by
  refine congrArg (fun step => attributes.entries.foldl step e) ?_
  funext e ⟨key, value⟩
  dsimp only [addAttribute]
  rcases managed? key with _ | component
  · rfl
  · rfl

theorem Lists.addAttribute (h : e.Lists f) (entry : String × Value) :
    (e.addAttribute entry).Lists fun c =>
      f c ++ if entry.1 = managementOutput c then [entry.2] else [] := by
  unfold Endpoints.addAttribute
  simp only [← Rehearsal.managed?_eq_some_iff]
  rcases managed? entry.1 with _ | component
  · simpa using h
  · simpa only [Option.some_inj, Option.elim_some] using h.add (List.cons_ne_nil entry.2 [])

theorem Lists.addAttributes (h : e.Lists f) (detail : ResourceDetail) :
    (e.addAttributes detail.attributes).Lists fun c => f c ++ (detail.address? c).toList := by
  have hfold := Lists.foldl
    (fun entry (_ : entry ∈ detail.attributes.entries) _ _ hlists =>
      Lists.addAttribute hlists entry) h
  rw [addAttributes_eq]
  refine hfold.congr fun c => ?_
  rw [Table.flatMap_entries _ _ fun value => [value], ResourceDetail.address?]
  rcases detail.attributes.get? (managementOutput c) with _ | value
  · rfl
  · rfl

/-- Adds the management attributes of one resource after the other. -/
def addDetails (e : Endpoints) (details : List ResourceDetail) : Endpoints :=
  details.foldl (fun e detail => e.addAttributes detail.attributes) e

theorem Lists.addDetails (h : e.Lists f) (details : List ResourceDetail) :
    (e.addDetails details).Lists fun c =>
      f c ++ details.filterMap fun detail => detail.address? c := by
  have hfold := Lists.foldl
    (fun detail (_ : detail ∈ details) _ _ hlists => Lists.addAttributes hlists detail) h
  refine hfold.congr fun c => ?_
  rw [List.filterMap_eq_flatMap_toList]

/-- Adds all that the other table lists, component by component. -/
def merge (own more : Endpoints) : Endpoints :=
  more.entries.foldl (fun found (name, addresses) => found.add name addresses) own

theorem Lists.merge {own more : Endpoints} {g : String → List Value} (h : own.Lists f)
    (hmore : more.Lists g) : (own.merge more).Lists fun c => f c ++ g c := by
  have hstep (entry : String × List Value) (hentry : entry ∈ more.entries) {e : Endpoints}
      {f : String → List Value} (h : e.Lists f) :
      (e.add entry.1 entry.2).Lists fun c => f c ++ if entry.1 = c then entry.2 else [] :=
    h.add ((hmore _ _).1 (Table.mem_entries.1 hentry)).2
  -- Every component has one entry in the other table, so it is added to once.
  refine (Lists.foldl (fun entry hentry _ _ => hstep entry hentry) h).congr fun c => ?_
  rw [Table.flatMap_entries more c fun addresses => addresses, Option.map_id', hmore.getD]

end Endpoints

namespace Rehearsal

/-! ## Members -/

/-- The members of a group, in the order in which they are listed. -/
def members (r : Rehearsal) (id group : String) : Except ServiceError (List ResourceDetail) := do
  let nested ← resource id group r
  let listed ← resourcesOf nested.physicalId r
  listed.mapM fun member => resource nested.physicalId member.name r

/-- A group, the listing of its members or one of the members cannot be read. -/
inductive Unreadable (r : Rehearsal) (id group : String) (e : ServiceError) : Prop where
  | group (h : resource id group r = .error e)
  | listing {nested : ResourceDetail} (hgroup : resource id group r = .ok nested)
    (h : resourcesOf nested.physicalId r = .error e)
  | member {nested : ResourceDetail} {listed : List ResourceSummary} {member : ResourceSummary}
    (hgroup : resource id group r = .ok nested)
    (hlisted : resourcesOf nested.physicalId r = .ok listed) (hmember : member ∈ listed)
    (h : resource nested.physicalId member.name r = .error e)

theorem unreadable_of_members {r : Rehearsal} {id group : String} {e : ServiceError}
    (h : r.members id group = .error e) : r.Unreadable id group e := by
  rcases bind_eq_error_iff.1 h with h | ⟨nested, hgroup, h⟩
  · exact .group h
  rcases bind_eq_error_iff.1 h with h | ⟨listed, hlisted, h⟩
  · exact .listing hgroup h
  · obtain ⟨member, hmember, h⟩ := exists_of_mapM_error h
    exact .member hgroup hlisted hmember h

theorem addMembers_map {α : Type} (f : α → Except ServiceError ResourceDetail) :
    ∀ (as : List α) (found : Endpoints),
      found.addMembers (as.map f) = (as.mapM f).map found.addDetails
  | [], _ => rfl
  | a :: as, found => by
    rw [List.map_cons, List.mapM_cons]
    rcases f a with e | detail
    · rfl
    · rw [Endpoints.addMembers, addMembers_map f as]
      change _ = Except.map _ (as.mapM f >>= fun details => pure (detail :: details))
      rcases as.mapM f with e | details
      · rfl
      · rfl

theorem withMembers_eq (r : Rehearsal) (id group : String) (found : Endpoints) :
    r.withMembers id group found = (r.members id group).map found.addDetails := by
  unfold withMembers members
  rcases resource id group r with e | nested
  · rfl
  change resourcesOf nested.physicalId r >>= _
    = Except.map _ (resourcesOf nested.physicalId r >>= _)
  rcases resourcesOf nested.physicalId r with e | listed
  · rfl
  · exact addMembers_map _ listed found

theorem foldlM_withMembers (r : Rehearsal) (id : String) :
    ∀ (groups : List String) (found : Endpoints),
      groups.foldlM (fun found group => r.withMembers id group found) found
        = (groups.mapM (r.members id)).map fun members => found.addDetails members.flatten
  | [], _ => rfl
  | group :: groups, found => by
    rw [List.foldlM_cons, withMembers_eq, List.mapM_cons]
    rcases r.members id group with e | details
    · rfl
    change groups.foldlM (fun found group => r.withMembers id group found)
        (found.addDetails details)
      = Except.map _ (groups.mapM (r.members id) >>= fun rest => pure (details :: rest))
    rw [foldlM_withMembers r id groups]
    rcases groups.mapM (r.members id) with e | rest
    · rfl
    · change Except.ok ((found.addDetails details).addDetails rest.flatten)
        = Except.ok (found.addDetails (details ++ rest.flatten))
      simp only [Endpoints.addDetails, List.foldl_append]

theorem members_stack (r : Rehearsal) (id : String) : (r.stack id).2.members = r.members := by
  have hresources : (r.stack id).2.resources = r.resources := by
    unfold stack
    split
    · rfl
    · rfl
  have hknown (other : String) : (r.stack id).2.known.contains other = r.known.contains other := by
    unfold stack
    split
    · rfl
    · rename_i stack hstack
      simp only [Table.contains, Table.get?_put]
      by_cases h : other = id
      · rw [if_pos h, h, hstack]
        rfl
      · rw [if_neg h]
  funext a group
  unfold members resource resourcesOf
  simp only [hresources, hknown]

theorem members_lookedAt (id : String) :
    ∀ (n : Nat) (r : Rehearsal), (lookedAt id n r).members = r.members
  | 0, _ => rfl
  | n + 1, r => by rw [lookedAt, members_lookedAt id n, members_stack]

/-! ## Gathering -/

/-- The addresses that a stack itself says, of each component the last one. -/
def ownAddresses (r : Rehearsal) (id component : String) : List Value :=
  (r.lastOutput? id (managementOutput component)).toList

/-- What a wait comes to that gathers the addresses in the members of these groups, one group after
the other, behind those that are there. -/
structure Gathers (r : Rehearsal) (id : String) (own : String → List Value) (groups : List String)
    (outcome : Except Fault Endpoints) : Prop where
  found : ∀ found, outcome = .ok found →
    ∃ members, groups.mapM (r.members id) = .ok members
      ∧ found.Lists fun c => own c ++ members.flatten.filterMap fun detail => detail.address? c
  failed : ∀ fault, outcome = .error fault →
    ∃ group ∈ groups, ∃ e, r.Unreadable id group e ∧ fault = .service e

theorem gathers_of_members {r : Rehearsal} {id : String} {own : String → List Value}
    {groups : List String} {place : List (List ResourceDetail) → Endpoints}
    (h : ∀ members, (place members).Lists fun c =>
      own c ++ members.flatten.filterMap fun detail => detail.address? c) :
    r.Gathers id own groups
      (((groups.mapM (r.members id)).map place).mapError Fault.service) := by
  rcases hmembers : groups.mapM (r.members id) with e | members
  · refine ⟨fun found hfound => (nomatch hfound), fun fault hfault => ?_⟩
    cases hfault
    obtain ⟨group, hgroup, he⟩ := exists_of_mapM_error hmembers
    exact ⟨group, hgroup, e, unreadable_of_members he, rfl⟩
  · refine ⟨fun found hfound => ?_, fun fault hfault => (nomatch hfault)⟩
    cases hfound
    exact ⟨members, hmembers, h members⟩

theorem lists_addDetails (details : List ResourceDetail) :
    (Endpoints.addDetails .empty details).Lists fun c =>
      details.filterMap fun detail => detail.address? c :=
  (Endpoints.lists_empty.addDetails details).congr fun _ => List.nil_append _

section Creation

variable (settings : LifecycleSettings) {r : Rehearsal} {id : String} {reason : Option String}

theorem lists_ownAddresses {status : StackStatus} :
    Endpoints.Lists ((r.seen id status reason).managementOutputs.map fun _ v => [v])
      (r.ownAddresses id) := by
  intro component addresses
  rw [Table.get?_map, managementOutputs_seen, ownAddresses]
  rcases r.lastOutput? id (managementOutput component) with _ | value
  · simp
  · simp only [Option.map_some, Option.some_inj, Option.toList_some, iff_self_and]
    rintro rfl
    exact List.cons_ne_nil _ _

theorem outcome_awaitGroupedAddresses {bindings : Bindings} {budget : Budget} {k : Nat}
    (hk : k < budget.retries) (hanswer : r.answer id k = .status ⟨.create, .complete⟩ reason)
    (hbefore : ∀ i < k, (r.answer id i).endsCreation = false) :
    r.outcome ((lifecycle settings).awaitGroupedAddresses id bindings budget)
      = ((bindings.values.mapM (r.members id)).map fun members =>
          Endpoints.merge
            ((r.seen id ⟨.create, .complete⟩ reason).managementOutputs.map fun _ v => [v])
            (.addDetails .empty members.flatten)).mapError Fault.service := by
  have hend : (r.answer id k).endsCreation = true := by
    rw [hanswer]
    rfl
  have hcreated : r.created id (.status ⟨.create, .complete⟩ reason)
      = .ok (r.seen id ⟨.create, .complete⟩ reason) := rfl
  rw [Lifecycle.awaitGroupedAddresses, outcome_bind, outcome_awaitCreated, after_awaitCreated,
    (find?_answers hk hend hbefore).1, hanswer]
  -- The looks at the stack have left its groups as they were.
  simp only [hcreated, outcome_bind, outcome_adapt, addGroups_run, foldlM_withMembers,
    members_lookedAt]
  rcases bindings.values.mapM (r.members id) with e | members
  · rfl
  · rfl

theorem gathers_awaitGroupedAddresses {bindings : Bindings} {budget : Budget} {k : Nat}
    (hk : k < budget.retries) (hanswer : r.answer id k = .status ⟨.create, .complete⟩ reason)
    (hbefore : ∀ i < k, (r.answer id i).endsCreation = false) :
    r.Gathers id (r.ownAddresses id) bindings.values
      (r.outcome ((lifecycle settings).awaitGroupedAddresses id bindings budget)) := by
  rw [outcome_awaitGroupedAddresses settings hk hanswer hbefore]
  exact gathers_of_members fun members => lists_ownAddresses.merge (lists_addDetails _)

end Creation

section Scaling

variable (settings : LifecycleSettings) {r : Rehearsal} {id : String} {bindings : Bindings}
  {request : ScaleRequest} {before : Option String} {budget : Budget}

/-- The signal has been acted on as far as so many reads of events can tell: the event says so, or
it says neither this nor that the signal was refused, and the resource is at rest. -/
inductive ActedOn (r : Rehearsal) (id resource : String) (before : Option String) (n : Nat) :
    Prop where
  | complete {e : StackEvent} (h : r.readEvent? id resource before n = some e)
    (hstatus : e.status = "SIGNAL_COMPLETE")
  | idle (h : ∀ e, r.readEvent? id resource before n = some e →
      e.status ≠ "SIGNAL_COMPLETE" ∧ e.status ≠ "SIGNAL_FAILED") (hidle : r.Idle id resource)

theorem actedOn_of_awaitScaled {found : Endpoints}
    (h : r.outcome ((lifecycle settings).awaitScaled id bindings request before budget)
      = .ok found) :
    ∃ group, bindings.get? request.policy = some group
      ∧ r.ActedOn id request.resource before budget.retries := by
  have hawaited := awaited_awaitScaled settings r id bindings request before budget
  rw [h] at hawaited
  rcases hgroup : bindings.get? request.policy with _ | group
  · cases hawaited.unbound hgroup
  refine ⟨group, rfl, ?_⟩
  by_cases hcomplete : ∃ e, r.readEvent? id request.resource before budget.retries = some e
      ∧ e.status = "SIGNAL_COMPLETE"
  · obtain ⟨e, he, hs⟩ := hcomplete
    exact .complete he hs
  have hundecided (e : StackEvent)
      (he : r.readEvent? id request.resource before budget.retries = some e) :
      e.status ≠ "SIGNAL_COMPLETE" ∧ e.status ≠ "SIGNAL_FAILED" := by
    refine ⟨fun hs => hcomplete ⟨e, he, hs⟩, fun hs => ?_⟩
    cases hawaited.failed group e hgroup he hs
  by_cases hidle : r.Idle id request.resource
  · exact .idle hundecided hidle
  · cases (hawaited.undecided group hgroup hundecided).2 hidle

theorem gathers_awaitScaled {group : String} (hgroup : bindings.get? request.policy = some group)
    (h : r.ActedOn id request.resource before budget.retries) :
    r.Gathers id (fun _ => []) [group]
      (r.outcome ((lifecycle settings).awaitScaled id bindings request before budget)) := by
  have hawaited := awaited_awaitScaled settings r id bindings request before budget
  have houtcome : r.outcome ((lifecycle settings).awaitScaled id bindings request before budget)
      = (r.withMembers id group .empty).mapError Fault.service := by
    rcases h with ⟨he, hs⟩ | ⟨hundecided, hidle⟩
    · exact hawaited.complete group _ hgroup he hs
    · exact (hawaited.undecided group hgroup hundecided).1 hidle
  have hfold := foldlM_withMembers r id [group] .empty
  simp only [List.foldlM_cons, List.foldlM_nil, bind_pure] at hfold
  rw [houtcome, hfold]
  exact gathers_of_members fun members =>
    (lists_addDetails _).congr fun _ => (List.nil_append _).symm

end Scaling

/-- Nothing is lost, doubled or moved. Once a stack is created, the addresses of a component are the
one that the stack itself says last and then those that the members of its groups have, in the order
of the policies and of the listings; a wait for a signal gathers them in the same way from the one
group that the policy is bound to. Either fails only for a group that cannot be read in full. -/
theorem gathered_in_order (settings : LifecycleSettings) (r : Rehearsal) (id : String)
    (bindings : Bindings) (budget : Budget) :
    (∀ k < budget.retries, ∀ reason, r.answer id k = .status ⟨.create, .complete⟩ reason →
      (∀ i < k, (r.answer id i).endsCreation = false) →
        r.Gathers id (r.ownAddresses id) bindings.values
          (r.outcome ((lifecycle settings).awaitGroupedAddresses id bindings budget)))
    ∧ ∀ (request : ScaleRequest) (before : Option String),
      (∀ found,
        r.outcome ((lifecycle settings).awaitScaled id bindings request before budget) = .ok found →
          ∃ group, bindings.get? request.policy = some group
            ∧ r.ActedOn id request.resource before budget.retries)
      ∧ ∀ group, bindings.get? request.policy = some group →
        r.ActedOn id request.resource before budget.retries →
          r.Gathers id (fun _ => []) [group]
            (r.outcome ((lifecycle settings).awaitScaled id bindings request before budget)) :=
  ⟨fun _ hk _ hanswer hbefore => gathers_awaitGroupedAddresses settings hk hanswer hbefore,
    fun _ _ => ⟨fun _ h => actedOn_of_awaitScaled settings h,
      fun _ hgroup h => gathers_awaitScaled settings hgroup h⟩⟩

/-- A member of a group that is managed at this address. -/
def memberAt (name component address : String) : ResourceDetail where
  name := name
  physicalId := name ++ "-id"
  type := "member.yaml"
  status := "CREATE_COMPLETE"
  attributes := Table.empty.put (managementOutput component) (.string address)

/-- A stack with an address of its own and two groups, the first one with two members. -/
def twoGroups : Rehearsal :=
  let r := blank.setOutputs "vnf" [("mgmt_ip-VDU1", .string "10.0.0.9")]
  let r := r.addResource "vnf" ⟨"SP1_group", "first", groupType, "CREATE_COMPLETE", .empty⟩
  let r := r.addResource "vnf" ⟨"SP2_group", "second", groupType, "CREATE_COMPLETE", .empty⟩
  let r := r.addResource "first" (memberAt "m1" "VDU1" "10.0.0.1")
  let r := r.addResource "first" (memberAt "m2" "VDU1" "10.0.0.2")
  r.addResource "second" (memberAt "m1" "VDU1" "10.0.0.3")

/-- The groups of the stack by policy. -/
def twoBindings : Bindings := (Table.empty.put "SP2" "SP2_group").put "SP1" "SP1_group"

/-- What is gathered of the two groups. -/
theorem twoGroups_gathered :
    ∃ found, twoGroups.outcome
        ((lifecycle .default).awaitGroupedAddresses "vnf" twoBindings ⟨1, 0⟩) = .ok found
      ∧ found.get? "VDU1" = some
        [.string "10.0.0.9", .string "10.0.0.1", .string "10.0.0.2", .string "10.0.0.3"] := by
  have hgathers := (gathered_in_order .default twoGroups "vnf" twoBindings ⟨1, 0⟩).1 0
    (by decide) none rfl (by decide)
  obtain ⟨found, hfound⟩ := exists_ok_of_toBool (x := twoGroups.outcome
    ((lifecycle .default).awaitGroupedAddresses "vnf" twoBindings ⟨1, 0⟩)) (by decide +kernel)
  obtain ⟨members, hmembers, hlists⟩ := hgathers.found found hfound
  have hread : twoBindings.values.mapM (twoGroups.members "vnf")
      = .ok [[memberAt "m1" "VDU1" "10.0.0.1", memberAt "m2" "VDU1" "10.0.0.2"],
        [memberAt "m1" "VDU1" "10.0.0.3"]] := rfl
  rw [hread] at hmembers
  cases hmembers
  refine ⟨found, hfound, (hlists _ _).2 ⟨rfl, List.cons_ne_nil _ _⟩⟩

end Rehearsal

end Provision
