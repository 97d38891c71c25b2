import Mathlib.Data.List.Perm.Subperm
import Provision.Proofs.OwnWord
import Provision.Proofs.Tables
import Provision.Rehearsal

/-!
# What an inventory accounts for

An inventory is a table by name, made of a listing that goes into nested stacks. There the names of
resources are not unique: the members of a group are built from one template, and their resources
have the names that the template gives them. Of the resources of one name the one listed last is
filed, and the others are lost. So an inventory accounts for its listing exactly if no name occurs
twice in it (`inventory_accounts_iff`).
-/

namespace Provision

namespace ResourceSummary

/-- What an inventory says of the resource. -/
def entry (s : ResourceSummary) : InventoryEntry := ⟨s.physicalId, s.type⟩

/-- The resource is listed, and none of its name is listed after it. -/
def LastNamed (listed : List ResourceSummary) (s : ResourceSummary) : Prop :=
  ∃ before after, listed = before ++ s :: after ∧ ∀ t ∈ after, t.name ≠ s.name

end ResourceSummary

open ResourceSummary

namespace Lifecycle

/-- The inventory that is made of a listing. -/
def inventoryOf (listed : List ResourceSummary) : Table InventoryEntry :=
  .ofList (listed.map fun s => (s.name, s.entry))

/-- Every listed resource has an entry, and there are as many entries as listed resources. -/
structure Accounted (listed : List ResourceSummary) (inventory : Table InventoryEntry) : Prop where
  held : ∀ s ∈ listed, s.entry ∈ inventory.values
  size : inventory.size = listed.length

variable {listed : List ResourceSummary}

theorem names_listed :
    Entries.names (listed.map fun s => (s.name, s.entry)) = listed.map ResourceSummary.name := by
  rw [Entries.names, List.map_map]
  rfl

theorem get?_inventoryOf {name : String} {entry : InventoryEntry} :
    (inventoryOf listed).get? name = some entry
      ↔ ∃ s, LastNamed listed s ∧ s.name = name ∧ s.entry = entry := by
  have hfind : (inventoryOf listed).get? name
      = (listed.reverse.find? fun s => s.name = name).map ResourceSummary.entry := by
    rw [inventoryOf, Table.get?_ofList, ← List.map_reverse, List.find?_map, Option.map_map]
    rfl
  rw [hfind, Option.map_eq_some_iff]
  refine exists_congr fun s => ?_
  rw [List.find?_eq_some_iff_append]
  constructor
  · rintro ⟨⟨hname, after, before, hlisted, hafter⟩, hentry⟩
    have hname : s.name = name := by simpa using hname
    refine ⟨⟨before.reverse, after.reverse, ?_, fun t ht => ?_⟩, hname, hentry⟩
    · rw [← List.reverse_reverse listed, hlisted]
      simp
    · rw [hname]
      simpa using hafter t (List.mem_reverse.1 ht)
  · rintro ⟨⟨before, after, rfl, hafter⟩, rfl, hentry⟩
    refine ⟨⟨by simp, after.reverse, before.reverse, by simp, fun t ht => ?_⟩, hentry⟩
    simpa using hafter t (List.mem_reverse.1 ht)

theorem size_inventoryOf :
    (inventoryOf listed).size = (listed.map ResourceSummary.name).dedup.length := by
  rw [inventoryOf, Table.size_ofList, names_listed]

theorem size_eq_length_iff :
    (inventoryOf listed).size = listed.length ↔ (listed.map ResourceSummary.name).Nodup := by
  rw [size_inventoryOf, ← length_dedup_eq_iff, List.length_map]

theorem held_of_nodup (h : (listed.map ResourceSummary.name).Nodup) {s : ResourceSummary}
    (hs : s ∈ listed) : (inventoryOf listed).get? s.name = some s.entry := by
  have hperm : (inventoryOf listed).entries.Perm (listed.map fun s => (s.name, s.entry)) :=
    Entries.ofList_perm (by rwa [names_listed])
  exact Table.mem_entries.1 (hperm.mem_iff.2 (List.mem_map_of_mem hs))

theorem accounted_iff :
    Accounted listed (inventoryOf listed) ↔ (listed.map ResourceSummary.name).Nodup := by
  refine ⟨fun h => size_eq_length_iff.1 h.size, fun h => ⟨fun s hs => ?_, size_eq_length_iff.2 h⟩⟩
  exact Table.mem_values.2 ⟨s.name, held_of_nodup h hs⟩

/-- If the resources themselves can be told apart, none is held in place of another. -/
theorem accounted_of_held (hids : (listed.map ResourceSummary.physicalId).Nodup)
    (h : ∀ s ∈ listed, s.entry ∈ (inventoryOf listed).values) :
    Accounted listed (inventoryOf listed) := by
  have hentries : (listed.map ResourceSummary.entry).Nodup := by
    refine List.Nodup.of_map InventoryEntry.physicalId ?_
    rwa [List.map_map]
  have hsub : listed.map ResourceSummary.entry ⊆ (inventoryOf listed).values := by
    intro entry hentry
    obtain ⟨s, hs, rfl⟩ := List.mem_map.1 hentry
    exact h s hs
  -- There are no fewer entries than resources, and no more than there are names.
  have hle := (List.subperm_of_subset hentries hsub).length_le
  have hge := (listed.map ResourceSummary.name).dedup_sublist.length_le
  refine ⟨h, ?_⟩
  rw [← size_inventoryOf, List.length_map] at hge
  rw [List.length_map, Table.values, List.length_map] at hle
  exact Nat.le_antisymm hge hle

theorem inventory_run {m : Type → Type} [Monad m] [LawfulMonad m] (l : Lifecycle m) (id : String) :
    (l.inventory id).run
      = (fun reply => (reply.map inventoryOf).mapError Fault.service)
        <$> (l.service.resources id inventoryDepth).run := by
  have hadapt : ((l.service.resources id inventoryDepth).adapt Fault.service).run
      = Except.mapError Fault.service <$> (l.service.resources id inventoryDepth).run := rfl
  rw [inventory, ExceptT.run_bind, hadapt, bind_map_left, map_eq_pure_bind]
  refine bind_congr fun reply => ?_
  rcases reply with e | listed
  · rfl
  · rfl

/-- An inventory is made of one listing that goes into nested stacks, and fails only with it. What
it has under a name is what is listed last under it. It accounts for all that is listed exactly if
no name is listed twice. Resources that differ in their physical identifiers do not stand in for
each other either: if a name is listed twice, one of them has no entry anywhere. -/
theorem inventory_accounts_iff {m : Type → Type} [Monad m] [LawfulMonad m] (l : Lifecycle m)
    (id : String) :
    (l.inventory id).run
        = (fun reply => (reply.map inventoryOf).mapError Fault.service)
          <$> (l.service.resources id inventoryDepth).run
      ∧ ∀ listed : List ResourceSummary,
        (∀ name entry, (inventoryOf listed).get? name = some entry
          ↔ ∃ s, LastNamed listed s ∧ s.name = name ∧ s.entry = entry)
        ∧ (Accounted listed (inventoryOf listed)
          ↔ (listed.map ResourceSummary.name).Nodup)
        ∧ ((listed.map ResourceSummary.physicalId).Nodup →
          ((∀ s ∈ listed, s.entry ∈ (inventoryOf listed).values)
            ↔ (listed.map ResourceSummary.name).Nodup)) := by
  refine ⟨inventory_run l id, fun listed =>
    ⟨fun name entry => get?_inventoryOf, accounted_iff, fun hids => ?_⟩⟩
  constructor
  · intro hheld
    exact accounted_iff.1 (accounted_of_held hids hheld)
  · intro hnames
    exact (accounted_iff.2 hnames).held

/-- A stack with two servers of different names. -/
def twoServers : Rehearsal :=
  let r := Rehearsal.blank.addResource "vnf" ⟨"VDU1", "a", "Server", "CREATE_COMPLETE", .empty⟩
  r.addResource "vnf" ⟨"VDU2", "b", "Server", "CREATE_COMPLETE", .empty⟩

/-- The two servers are accounted for, and can be told apart by their names as well as by their
physical identifiers. -/
theorem twoServers_accounted :
    ∃ listed inventory, Rehearsal.resourcesOf "vnf" twoServers = .ok listed
      ∧ (((Rehearsal.lifecycle .default).inventory "vnf").run.run twoServers).1 = .ok inventory
      ∧ Accounted listed inventory ∧ (listed.map ResourceSummary.physicalId).Nodup
      ∧ (listed.map ResourceSummary.name).Nodup := by
  obtain ⟨hrun, hlisted⟩ := inventory_accounts_iff (Rehearsal.lifecycle .default) "vnf"
  obtain ⟨-, haccounted, hheld⟩ := hlisted
    [⟨"VDU1", "a", "Server", "CREATE_COMPLETE"⟩, ⟨"VDU2", "b", "Server", "CREATE_COMPLETE"⟩]
  have hall := haccounted.2 (by decide)
  refine ⟨_, _, rfl, ?_, hall, by decide, (hheld (by decide)).1 hall.held⟩
  rw [hrun]
  rfl

end Lifecycle

namespace Destination

open Remote Lifecycle

/-- A listing of two servers of one name. -/
def twinListing : String :=
  "\x7b\"resources\":[" ++ twin "a" ++ "," ++ twin "b" ++ "]\x7d"
where
  twin (id : String) : String :=
    "\x7b\"resource_name\":\"VDU1\",\"physical_resource_id\":\"" ++ id
      ++ "\",\"resource_type\":\"Server\",\"resource_status\":\"\"\x7d"

/-- An identity service that has an address for the orchestration service, and an orchestration
service with a stack whose members each have a server of the same name. -/
def twins : Outside where
  answer _ request :=
    if request.token.isNone then
      .ok ⟨201, [(IdentitySettings.tokenHeader, "t")], .ok ("\x7b\"token\": \x7b\"catalog\": ["
        ++ "\x7b\"type\": \"orchestration\", \"endpoints\": ["
        ++ "\x7b\"interface\": \"public\", \"url\": \"http://heat\"\x7d]\x7d]\x7d\x7d")⟩
    else if request.url.query.isSome then .ok ⟨200, [], .ok twinListing⟩
    else
      .ok ⟨200, [], .ok ("\x7b\"stack\": \x7b\"id\": \"i\", \"stack_name\": \"s\","
        ++ " \"stack_status\": \"\"\x7d\x7d")⟩
  clock _ := ⟨0, 0⟩

/-- The two servers in the listing. -/
theorem twins_listed :
    Ends ((looked.lifecycle twins .default).service.resources "i" inventoryDepth).run .fresh []
      fun r _ _ => ∃ listed, r = .ok listed
        ∧ listed.map (fun s => (s.name, s.entry))
          = [("VDU1", ⟨"a", "Server"⟩), ("VDU1", ⟨"b", "Server"⟩)] := by
  have hevaluated : Ends
      ((looked.lifecycle twins .default).service.resources "i" inventoryDepth).run .fresh []
      fun r _ _ => r.toOption.map (List.map fun s => (s.name, s.entry))
        = some [("VDU1", ⟨"a", "Server"⟩), ("VDU1", ⟨"b", "Server"⟩)] :=
    Ends.evaluated (by decide +kernel)
  refine hevaluated.mono fun r _ _ h => ?_
  rcases r with e | listed
  · cases h
  · exact ⟨listed, rfl, Option.some.inj h⟩

/-- Two servers are listed, and one of them has no entry in the inventory. -/
theorem twins_lost :
    Ends ((looked.lifecycle twins .default).inventory "i").run .fresh [] fun r _ _ =>
      ∃ listed inventory, r = .ok inventory
        ∧ Ends ((looked.lifecycle twins .default).service.resources "i" inventoryDepth).run
          .fresh [] (fun listing _ _ => listing = .ok listed)
        ∧ (∃ s ∈ listed, s.entry ∉ inventory.values) ∧ inventory.size < listed.length := by
  obtain ⟨_, c', new, hrun, listed, rfl, hpairs⟩ := twins_listed
  have hentries : (inventoryOf listed).entries = [("VDU1", ⟨"b", "Server"⟩)] := by
    rw [inventoryOf, hpairs]
    rfl
  have hfirst : ("VDU1", ⟨"a", "Server"⟩) ∈ listed.map fun s => (s.name, s.entry) := by
    rw [hpairs]
    exact List.mem_cons_self
  have hlength : listed.length = 2 := by
    rw [← List.length_map (f := fun s => (s.name, s.entry)), hpairs]
    rfl
  obtain ⟨s, hs, hpair⟩ := List.mem_map.1 hfirst
  have hentry : s.entry = ⟨"a", "Server"⟩ := congrArg Prod.snd hpair
  rw [inventory_run]
  refine Ends.map ⟨_, c', new, hrun, listed, inventoryOf listed, rfl, ⟨_, c', new, hrun, rfl⟩,
    ⟨s, hs, ?_⟩, ?_⟩
  · rw [hentry, Table.values, hentries]
    decide
  · rw [Table.size, hentries, hlength]
    decide

end Destination

end Provision
