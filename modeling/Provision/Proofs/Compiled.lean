import Provision.Proofs.Additions

/-!
# Compilation drops and merges nothing

A descriptor calls for a resource of its own for every component, and for those that a server or a
storage component brings along (`Descriptor.calledFor`). What it is compiled into holds exactly
these, so compilation fails if two of them have the same name (`compile_calls`).
-/

namespace Provision

open MonadAttach LawfulMonadAttach

namespace Descriptor

variable (d : Descriptor)

/-- The compute components that are managed through a port. -/
def managedComputes : List String :=
  (d.computes.filter fun e => d.managementPorts e.1 e.2 ≠ []).map Prod.fst

/-- The resources that the components call for, by name and type, each as often as it is. -/
def calledFor : List (String × String) :=
  (d.computes.map fun e => (e.1, serverType))
    ++ (d.computes.flatMap fun e => e.2.ownFlavor e.1)
    ++ (d.computes.flatMap fun e => e.2.ownImage e.1)
    ++ (d.computes.flatMap fun e => e.2.networks.map fun r => (portName e.1 r.network, portType))
    ++ ((d.select Component.connectionPoint?).map fun e => (e.1, portType))
    ++ (d.select Component.storage?).flatMap fun e =>
      [(e.1, volumeType), (attachmentName e.1, attachmentType)]

theorem eq_of_mem_ownOutputs {name k : String} {c : Compute} {o : Output}
    (h : (k, o) ∈ d.ownOutputs name c) : k = managementOutput name := by
  obtain ⟨port, -, heq⟩ := List.mem_map.1 h
  exact (congrArg Prod.fst heq).symm

end Descriptor

namespace Compile

variable {d : Descriptor} {s : Substitution} {name : String} {c : Compute}

theorem referenceList_networks (requests : List PortRequest) :
    (networks requests).referenceList = requests.map PortRequest.name := by
  unfold networks
  rw [Property.referenceList]
  induction requests with
  | nil => rfl
  | cons r rs ih =>
    rw [List.map_cons, Property.referenceListItems, ih]
    rfl

/-- The server once it is plugged into its ports. -/
def plugged (requests : List PortRequest) (server : Resource) : Resource :=
  if requests.isEmpty then server else server.set "networks" (networks requests)

theorem type_plugged {requests : List PortRequest} {server : Resource} :
    (plugged requests server).type = server.type := by
  unfold plugged
  split
  · rfl
  · rfl

theorem Unplugged.networkReferences_plugged {requests : List PortRequest} {server : Resource}
    (h : Unplugged server) :
    (plugged requests server).networkReferences = requests.map PortRequest.name := by
  unfold plugged
  rcases requests with _ | ⟨r, rs⟩
  · simp [Resource.networkReferences, h.2]
  · have hget : (server.set "networks" (networks (r :: rs))).properties.get? "networks"
        = some (networks (r :: rs)) := Table.get?_put.trans (if_pos rfl)
    rw [← referenceList_networks]
    simp [Resource.networkReferences, hget]

theorem managementOutput_inj {a b : String} (h : managementOutput a = managementOutput b) :
    a = b :=
  String.append_right_inj _ |>.1 h

/-- What a compute component adds: its own resources, among them a server on its ports, and an
output if it is managed through one of them. -/
structure ComputeAdded (d : Descriptor) (name : String) (c : Compute) (g g' : ResourceGraph) :
    Prop where
  adds : Adds g (d.ownResources name c) g'
  server : ∃ server, g'.resource? name = some server ∧ server.type = serverType
    ∧ server.networkReferences.Perm (d.portNames name c)
  few : (d.managementPorts name c).length ≤ 1
  outputs : managementOutput name ∉ g.outputs.names →
    g'.outputs.entries.Perm (d.ownOutputs name c ++ g.outputs.entries)

section Labels

variable {requests : List PortRequest}
variable (h : (requests.map label).Perm ((d.ownPorts name c).map fun own => (own, name)))
include h

theorem names_perm : (requests.map PortRequest.name).Perm (d.portNames name c) := by
  have hnames := h.map fun l => l.1.1
  rwa [List.map_map, List.map_map] at hnames

theorem managed_perm :
    ((requests.filter PortRequest.management).map PortRequest.name).Perm
      (d.managementPorts name c) := by
  have hfilter := (h.filter fun l => l.1.2).map fun l => l.1.1
  rw [List.filter_map, List.filter_map, List.map_map, List.map_map] at hfilter
  exact hfilter

theorem compute_eq {r : PortRequest} (hr : r ∈ requests) : r.compute = name := by
  have hl := h.mem_iff.1 (List.mem_map_of_mem (f := label) hr)
  obtain ⟨own, -, heq⟩ := List.mem_map.1 hl
  exact (congrArg Prod.snd heq).symm

theorem of_declare (hlen : (requests.filter PortRequest.management).length ≤ 1)
    (outputs : Table Output) : (d.managementPorts name c).length ≤ 1
      ∧ (managementOutput name ∉ outputs.names →
        (declare requests outputs).entries.Perm (d.ownOutputs name c ++ outputs.entries)) := by
  have hperm := managed_perm h
  unfold declare Descriptor.ownOutputs
  rcases hm : requests.filter PortRequest.management with _ | ⟨r, _ | ⟨r', rs⟩⟩
  · rw [hm] at hperm
    rw [hperm.symm.eq_nil]
    exact ⟨Nat.zero_le 1, fun _ => .refl _⟩
  · rw [hm] at hperm
    have hr : r ∈ requests.filter PortRequest.management := hm ▸ List.mem_singleton_self r
    rw [List.perm_singleton.1 hperm.symm, ← compute_eq h (List.mem_of_mem_filter hr)]
    exact ⟨Nat.le_refl 1, fun hfree => Entries.put_perm hfree⟩
  · rw [hm] at hlen
    simp at hlen

end Labels

section Monad

variable {m : Type → Type} [Monad m] [LawfulMonad m] [MonadAttach m] [LawfulMonadAttach m]
variable {catalog : Catalog m} {settings : CompilerSettings}

theorem of_addCompute {points : List (String × ConnectionPoint)} {g g' : ResourceGraph}
    {memo memo' : SupportMemo} (hpoints : points.Perm (d.points name))
    (h : CanReturn (addCompute settings catalog d points s name c g memo) (g', memo')) :
    ComputeAdded d name c g g' := by
  obtain ⟨⟨g₁, server₁⟩, himage, h⟩ := canReturn_bind_imp' h
  obtain ⟨⟨g₂, server₂⟩, hflavor, h⟩ := canReturn_bind_imp' h
  obtain ⟨server₃, hdetails, h⟩ := canReturn_bind_imp' h
  obtain ⟨requests, hrequests, h⟩ := canReturn_bind_imp' h
  obtain ⟨⟨g₃, memo₃⟩, hports, h⟩ := canReturn_bind_imp' h
  obtain ⟨g₄, hserver, h⟩ := canReturn_bind_imp' h
  cases eq_of_canReturn_pure (m := m) h
  have hnew : Unplugged (Resource.new serverType) := ⟨rfl, rfl⟩
  obtain ⟨hadds₁, hout₁, hu₁⟩ := of_addImage (ok_of_canReturn_liftM himage) hnew
  obtain ⟨hadds₂, hout₂, hu₂⟩ := of_addFlavor (ok_of_canReturn_liftM hflavor) hu₁
  have hu₃ := hu₂.setDetails (ok_of_canReturn_liftM hdetails)
  obtain ⟨hlabels, hlen⟩ := of_portRequests (ok_of_canReturn_liftM hrequests) hpoints
  obtain ⟨hadds₃, hout₃⟩ := of_addPorts hports
  have hnames := names_perm hlabels
  have htype : (plugged requests server₃).type = serverType := type_plugged.trans hu₃.1
  obtain ⟨hadds₄, hget, hout₄⟩ := of_add (ok_of_canReturn_liftM hserver)
  obtain ⟨hfew, hdeclared⟩ := of_declare hlabels hlen g.outputs
  refine ⟨?_, ⟨_, hget, htype, hu₃.networkReferences_plugged ▸ hnames⟩, hfew, ?_⟩
  · change Adds _ [(name, (plugged requests server₃).type)] _ at hadds₄
    rw [htype] at hadds₄
    refine (((hadds₁.trans hadds₂).trans hadds₃).trans hadds₄).perm ?_
    have hports := hnames.map fun port => (port, portType)
    rw [List.map_map] at hports
    have hown := List.perm_append_comm.trans
      (hports.append_left (c.ownFlavor name ++ c.ownImage name))
    rw [List.append_assoc] at hown
    exact hown.cons (name, serverType)
  · rw [hout₄, hout₃, hout₂, hout₁]
    exact hdeclared

/-- What compute components with different names add in turn. -/
structure ComputesAdded (d : Descriptor) (cs : List (String × Compute)) (g g' : ResourceGraph) :
    Prop where
  adds : Adds g (cs.flatMap fun e => d.ownResources e.1 e.2) g'
  servers : ∀ e ∈ cs, ∃ server, g'.resource? e.1 = some server ∧ server.type = serverType
    ∧ server.networkReferences.Perm (d.portNames e.1 e.2)
  few : ∀ e ∈ cs, (d.managementPorts e.1 e.2).length ≤ 1
  outputs : (∀ e ∈ cs, managementOutput e.1 ∉ g.outputs.names) →
    g'.outputs.entries.Perm ((cs.flatMap fun e => d.ownOutputs e.1 e.2) ++ g.outputs.entries)

theorem of_addComputes {points : PointsByCompute} {cs : List (String × Compute)}
    {done done' : Compiled} {memo : SupportMemo}
    (hpoints : ∀ compute, ((points.get? compute).getD []).Perm (d.points compute))
    (hn : (cs.map Prod.fst).Nodup)
    (h : CanReturn (addComputes settings catalog d points s cs done memo) done') :
    ComputesAdded d cs done.graph done'.graph := by
  induction cs generalizing done memo with
  | nil =>
    cases eq_of_canReturn_pure (m := m) h
    exact ⟨.refl, by simp, by simp, fun _ => .refl _⟩
  | cons e cs ih =>
    obtain ⟨name, c⟩ := e
    rw [List.map_cons, List.nodup_cons] at hn
    obtain ⟨⟨g₁, memo₁⟩, hcompute, h⟩ := canReturn_bind_imp' h
    obtain ⟨monitoring, -, h⟩ := canReturn_bind_imp' h
    have hfirst := of_addCompute (hpoints name) hcompute
    have hrest := ih hn.2 h
    refine ⟨?_, ?_, List.forall_mem_cons.2 ⟨hfirst.few, hrest.few⟩, fun hfree => ?_⟩
    · refine (hfirst.adds.trans hrest.adds).perm ?_
      rw [List.flatMap_cons]
      exact List.perm_append_comm
    · refine List.forall_mem_cons.2 ⟨?_, hrest.servers⟩
      obtain ⟨server, hget, hserver⟩ := hfirst.server
      exact ⟨server, hrest.adds.kept _ _ hget, hserver⟩
    · obtain ⟨hname, hfree⟩ := List.forall_mem_cons.1 hfree
      have houtputs := hfirst.outputs hname
      have hfree₁ : ∀ e ∈ cs, managementOutput e.1 ∉ g₁.outputs.names := by
        intro e he hmem
        obtain ⟨⟨k, o⟩, ho, rfl⟩ := List.mem_map.1 hmem
        rcases List.mem_append.1 (houtputs.mem_iff.1 ho) with ho | ho
        · have hk := d.eq_of_mem_ownOutputs ho
          exact hn.1 (List.mem_map.2 ⟨e, he, managementOutput_inj hk⟩)
        · exact hfree e he (List.mem_map_of_mem ho)
      refine (hrest.outputs hfree₁).trans ((houtputs.append_left _).trans ?_)
      rw [List.flatMap_cons, ← List.append_assoc]
      exact List.perm_append_comm.append_right _

end Monad

/-! ## Storage components -/

theorem refersTo_resource {n t : String} : (Property.resource n).RefersTo t ↔ t = n := by
  constructor
  · rintro ⟨⟩
    rfl
  · rintro rfl
    exact .resource t

/-- The attachment of a volume to a server. -/
def attachment (storage compute : String) : Resource :=
  ((Resource.new attachmentType).set "instance_uuid" (.resource compute)).set "volume_id"
    (.resource storage)

theorem refersTo_attachment {storage compute t : String} :
    (attachment storage compute).RefersTo t ↔ t = storage ∨ t = compute := by
  rw [attachment, Resource.refersTo_set rfl, Resource.refersTo_set rfl, refersTo_resource,
    refersTo_resource, or_iff_left Resource.not_refersTo_new]

theorem of_addStorage {storage : Storage} {g g' : ResourceGraph}
    (h : addStorage d s name storage g = .ok g') :
    Adds g [(name, volumeType), (attachmentName name, attachmentType)] g'
      ∧ g'.outputs = g.outputs ∧ d.hasCompute storage.attachedTo
      ∧ ∃ attachment, g'.resource? (attachmentName name) = some attachment
        ∧ attachment.type = attachmentType
        ∧ ∀ t, attachment.RefersTo t ↔ t = name ∨ t = storage.attachedTo := by
  unfold addStorage at h
  extract_lets bare attach build sized at h
  split at h
  · cases h
  · rename_i hc
    obtain ⟨size, -, h⟩ := bind_eq_ok_iff.1 h
    split at h
    · obtain ⟨gb, -, h⟩ := bind_eq_ok_iff.1 h
      obtain ⟨volume, hvolume, h⟩ := bind_eq_ok_iff.1 h
      obtain ⟨g₁, hadd, h⟩ := bind_eq_ok_iff.1 h
      obtain ⟨hadds₁, -, hout₁⟩ := of_add hadd
      obtain ⟨hadds₂, hget, hout₂⟩ := of_add h
      have hvtype : volume.type = volumeType := by
        rcases of_setLeaf hvolume with rfl | ⟨value, rfl⟩ <;> rfl
      have hattach : attach.type = attachmentType
          ∧ ∀ t, attach.RefersTo t ↔ t = name ∨ t = storage.attachedTo := by
        unfold attach
        split
        · refine ⟨rfl, fun t => ?_⟩
          rw [Resource.refersTo_set rfl, or_iff_right Property.not_refersTo_string]
          exact refersTo_attachment
        · exact ⟨rfl, fun _ => refersTo_attachment⟩
      rw [hvtype] at hadds₁
      rw [hattach.1] at hadds₂
      exact ⟨(hadds₁.trans hadds₂).perm (.swap ..), hout₂.trans hout₁, by simpa using hc, attach,
        hget, hattach⟩
    · cases h

theorem of_addStorages {storages : List (String × Storage)} {g g' : ResourceGraph}
    (h : addStorages d s storages g = .ok g') :
    Adds g (storages.flatMap fun e =>
        [(e.1, volumeType), (attachmentName e.1, attachmentType)]) g'
      ∧ g'.outputs = g.outputs
      ∧ ∀ e ∈ storages, d.hasCompute e.2.attachedTo
        ∧ ∃ attachment, g'.resource? (attachmentName e.1) = some attachment
          ∧ attachment.type = attachmentType
          ∧ ∀ t, attachment.RefersTo t ↔ t = e.1 ∨ t = e.2.attachedTo := by
  induction storages generalizing g with
  | nil =>
    cases h
    exact ⟨.refl, rfl, by simp⟩
  | cons e storages ih =>
    obtain ⟨name, storage⟩ := e
    obtain ⟨g₁, hfirst, h⟩ := bind_eq_ok_iff.1 h
    obtain ⟨hadds₁, hout₁, hc, attachment, hget, hrefs⟩ := of_addStorage hfirst
    obtain ⟨hadds₂, hout₂, hrest⟩ := ih h
    refine ⟨?_, hout₂.trans hout₁, List.forall_mem_cons.2 ⟨?_, hrest⟩⟩
    · rw [List.flatMap_cons]
      exact (hadds₁.trans hadds₂).perm List.perm_append_comm
    · exact ⟨hc, attachment, hadds₂.kept _ _ hget, hrefs⟩

end Compile

namespace Descriptor

variable {d : Descriptor}

/-- What the compute components are compiled into, regrouped by kind. -/
theorem flatMap_ownResources_perm
    (h : ∀ p ∈ d.select Component.connectionPoint?, d.hasCompute p.2.binding) :
    (d.computes.flatMap fun e => d.ownResources e.1 e.2).Perm
      ((d.computes.map fun e => (e.1, serverType))
        ++ ((d.computes.flatMap fun e => e.2.ownFlavor e.1)
        ++ ((d.computes.flatMap fun e => e.2.ownImage e.1)
        ++ ((d.computes.flatMap fun e => e.2.networks.map fun r =>
          (portName e.1 r.network, portType))
        ++ (d.select Component.connectionPoint?).map fun e => (e.1, portType))))) := by
  have hports : (d.computes.flatMap fun e => (d.portNames e.1 e.2).map fun port => (port, portType))
      = d.computes.flatMap fun e => (e.2.networks.map fun r => (portName e.1 r.network, portType))
        ++ (d.points e.1).map fun p => (p.1, portType) := by
    simp [portNames, ownPorts, Function.comp_def]
  have hpoints := (flatMap_points_perm h).map fun p => (p.1, portType)
  rw [List.map_flatMap] at hpoints
  refine (List.map_append_flatMap_perm _ _ _).symm.trans (.append_left _ ?_)
  refine (List.flatMap_append_perm _ _ _).symm.trans (.append_left _ ?_)
  refine (List.flatMap_append_perm _ _ _).symm.trans (.append_left _ ?_)
  rw [hports]
  exact (List.flatMap_append_perm _ _ _).symm.trans (.append_left _ hpoints)

theorem flatMap_if {α β : Type} (p : α → Prop) [DecidablePred p] (f : α → β) (l : List α) :
    (l.flatMap fun a => if p a then [f a] else []) = (l.filter p).map f := by
  induction l with
  | nil => rfl
  | cons a l ih =>
    rw [List.flatMap_cons, ih]
    by_cases h : p a <;> simp [h]

theorem map_ownOutputs {name : String} {c : Compute}
    (h : (d.managementPorts name c).length ≤ 1) : (d.ownOutputs name c).map Prod.fst
      = if d.managementPorts name c ≠ [] then [managementOutput name] else [] := by
  unfold ownOutputs
  rcases hm : d.managementPorts name c with _ | ⟨port, _ | ⟨port', ports⟩⟩
  · rfl
  · rfl
  · rw [hm] at h
    simp at h

/-- What a graph holds that a descriptor is compiled into: the resources called for, servers that
refer to their ports, attachments, and the outputs of the compute components. -/
structure CompilesTo (d : Descriptor) (g : ResourceGraph) : Prop where
  resources : g.typed.Perm ((d.computes.flatMap fun e => d.ownResources e.1 e.2)
    ++ (d.select Component.storage?).flatMap fun e =>
      [(e.1, volumeType), (attachmentName e.1, attachmentType)])
  bound : ∀ p ∈ d.select Component.connectionPoint?, d.hasCompute p.2.binding
  servers : ∀ name c, d.components.get? name = some (.compute c) →
    ∃ server, g.resource? name = some server ∧ server.type = serverType
      ∧ server.networkReferences.Perm (d.portNames name c)
  attachments : ∀ name s, d.components.get? name = some (.storage s) →
    d.hasCompute s.attachedTo ∧ ∃ attachment, g.resource? (attachmentName name) = some attachment
      ∧ attachment.type = attachmentType
      ∧ ∀ t, attachment.RefersTo t ↔ t = name ∨ t = s.attachedTo
  few : ∀ name c, d.components.get? name = some (.compute c) →
    (d.managementPorts name c).length ≤ 1
  outputs : g.outputs.entries.Perm (d.computes.flatMap fun e => d.ownOutputs e.1 e.2)
  description : g.description = d.description
  files : g.files = []
  valid : g.validate = .ok ()

namespace CompilesTo

variable {g : ResourceGraph}

theorem typed_calledFor (h : d.CompilesTo g) : g.typed.Perm d.calledFor := by
  refine h.resources.trans (((flatMap_ownResources_perm h.bound).append_right _).trans ?_)
  simp only [calledFor, List.append_assoc]
  exact .refl _

theorem nodup_calledFor (h : d.CompilesTo g) : (d.calledFor.map Prod.fst).Nodup := by
  rw [← (h.typed_calledFor.map Prod.fst).nodup_iff, g.names_typed]
  exact g.resources.ascending.imp String.ne_of_lt

theorem nodup_portNames (h : d.CompilesTo g) {name : String} {c : Compute}
    (hc : d.components.get? name = some (.compute c)) : (d.portNames name c).Nodup := by
  have hall := h.resources.map Prod.fst
  rw [g.names_typed, List.map_append, List.map_flatMap] at hall
  have hn := hall.nodup_iff.1 (g.resources.ascending.imp String.ne_of_lt)
  have hown := (List.nodup_flatMap.1 (List.nodup_append.1 hn).1).1 _ (mem_computes.2 hc)
  refine List.Nodup.sublist ?_ hown
  have hports : ((d.portNames name c).map fun port => (port, portType)).map Prod.fst
      = d.portNames name c := by
    simp [Function.comp_def]
  rw [ownResources, List.map_cons, List.map_append, List.map_append, hports]
  exact ((List.sublist_append_right _ _).trans (List.sublist_append_right _ _)).cons _

theorem outputs_names (h : d.CompilesTo g) :
    g.outputs.names.Perm (d.managedComputes.map managementOutput) := by
  have hnames := h.outputs.map Prod.fst
  rw [List.map_flatMap,
    List.flatMap_congr fun e he => map_ownOutputs (h.few _ _ (mem_computes.1 he)),
    flatMap_if] at hnames
  rw [managedComputes, List.map_map]
  exact hnames

end CompilesTo

section Monad

variable {m : Type → Type} [Monad m] [LawfulMonad m] [MonadAttach m] [LawfulMonadAttach m]
variable {settings : CompilerSettings} {parameters : Option Parameters} {catalog : Catalog m}
variable {compiled : Compiled}

theorem of_compile (h : CanReturn (d.compile settings parameters catalog) compiled) :
    d.CompilesTo compiled.graph := by
  obtain ⟨s, -, h⟩ := canReturn_bind_imp' h
  obtain ⟨filed, hfiled, h⟩ := canReturn_bind_imp' h
  obtain ⟨done, hdone, h⟩ := canReturn_bind_imp' h
  obtain ⟨g, hg, h⟩ := canReturn_bind_imp' h
  obtain ⟨u, hvalid, h⟩ := canReturn_bind_imp' h
  cases eq_of_canReturn_pure (m := m) h
  obtain ⟨hbound, hpoints⟩ := Compile.of_pointsByCompute (ok_of_canReturn_liftM hfiled)
  have hcomputes := Compile.of_addComputes
    (fun compute => hpoints compute ▸ List.mergeSort_perm _ _) (nodup_select _) hdone
  obtain ⟨hadds, hout, hattach⟩ := Compile.of_addStorages (ok_of_canReturn_liftM hg)
  have hall := hcomputes.adds.trans hadds
  refine
    { resources := ?_
      bound := hbound
      servers := fun name c hc => ?_
      attachments := fun name s hs => hattach (name, s) (mem_select_storage.2 hs)
      few := fun name c hc => hcomputes.few (name, c) (mem_computes.2 hc)
      outputs := ?_
      description := hall.description
      files := hall.files
      valid := mapError_eq_ok_iff.1 (ok_of_canReturn_liftM hvalid) }
  · refine hall.typed.trans ?_
    rw [show ResourceGraph.typed _ = [] from rfl, List.append_nil]
    exact List.perm_append_comm
  · obtain ⟨server, hget, hserver⟩ := hcomputes.servers (name, c) (mem_computes.2 hc)
    exact ⟨server, hadds.kept _ _ hget, hserver⟩
  · rw [hout]
    have houtputs : done.graph.outputs.entries.Perm
        ((d.computes.flatMap fun e => d.ownOutputs e.1 e.2) ++ []) :=
      hcomputes.outputs fun _ _ => List.not_mem_nil
    rwa [List.append_nil] at houtputs

end Monad

/-- How a graph and the descriptor it is compiled from correspond: there is a resource for each
that is called for, so no two of these have the same name; every server refers to each of its ports
once, every attachment to its volume and its server; and there is one output for each compute
component that is managed through a port. -/
structure Corresponds (d : Descriptor) (g : ResourceGraph) : Prop where
  resources : g.typed.Perm d.calledFor
  names : g.resources.names.Perm (d.calledFor.map Prod.fst)
  distinct : (d.calledFor.map Prod.fst).Nodup
  size : g.resources.size = d.calledFor.length
  networks : ∀ name c, d.components.get? name = some (.compute c) →
    ∃ server, g.resource? name = some server ∧ server.type = serverType
      ∧ server.networkReferences.Perm (d.portNames name c) ∧ server.networkReferences.Nodup
  attachments : ∀ name s, d.components.get? name = some (.storage s) →
    d.hasCompute s.attachedTo ∧ ∃ attachment, g.resource? (attachmentName name) = some attachment
      ∧ attachment.type = attachmentType
      ∧ ∀ t, attachment.RefersTo t ↔ t = name ∨ t = s.attachedTo
  outputs : g.outputs.names.Perm (d.managedComputes.map managementOutput)

/-- Nothing that a descriptor calls for is dropped by compilation or merged with anything else. -/
theorem compile_corresponds {m : Type → Type} [Monad m] [LawfulMonad m] [MonadAttach m]
    [LawfulMonadAttach m] {d : Descriptor} {settings : CompilerSettings}
    {parameters : Option Parameters} {catalog : Catalog m} {compiled : Compiled}
    (h : CanReturn (d.compile settings parameters catalog) compiled) :
    d.Corresponds compiled.graph := by
  have hc := of_compile h
  have hnames := hc.typed_calledFor.map Prod.fst
  rw [ResourceGraph.names_typed] at hnames
  refine
    { resources := hc.typed_calledFor
      names := hnames
      distinct := hc.nodup_calledFor
      size := ?_
      networks := fun name c hcompute => ?_
      attachments := hc.attachments
      outputs := hc.outputs_names }
  · have hlen := hc.typed_calledFor.length_eq
    rwa [ResourceGraph.typed, List.length_map] at hlen
  · obtain ⟨server, hget, htype, hperm⟩ := hc.servers name c hcompute
    exact ⟨server, hget, htype, hperm, hperm.nodup_iff.2 (hc.nodup_portNames hcompute)⟩

/-- A server that is managed through a port, with a volume. -/
def storeDescriptor : Descriptor :=
  ((Descriptor.named "vnf").withComponent "VDU1"
      (.compute { Compute.blank with networks := [⟨"net0", true, none, .empty⟩] })).withComponent
    "VB1" (.storage ⟨.int 1, none, "VDU1", none⟩)

/-- An endpoint that supports no property that has a fallback. -/
def oldCatalog : Catalog Id := ⟨fun _ => .ok .empty⟩

theorem store_corresponds :
    ∃ compiled, CanReturn (storeDescriptor.compile .default none oldCatalog) compiled
      ∧ storeDescriptor.Corresponds compiled.graph := by
  have hok : (storeDescriptor.compile .default none oldCatalog).run.toBool = true := by
    decide +kernel
  rcases hc : (storeDescriptor.compile .default none oldCatalog).run with fault | compiled
  · rw [hc] at hok
    cases hok
  · have hreturn : CanReturn (storeDescriptor.compile .default none oldCatalog) compiled := hc
    exact ⟨compiled, hreturn, compile_corresponds hreturn⟩

end Descriptor

end Provision
