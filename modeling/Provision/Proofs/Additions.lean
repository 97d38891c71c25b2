import Provision.Proofs.Adapting
import Provision.Proofs.Components
import Provision.Proofs.Regrouping

/-!
# What the steps of compilation add

Every step of compilation adds resources under names that are free, so what a run adds is what its
steps add, each as often as it is called for (`Compile.Adds`). A server is put together before it is
added, and nothing but the last touch gives it networks (`Unplugged`). The one output that a compute
component can have starts from the one port it is managed through (`of_addCompute`).
-/

namespace Provision

open MonadAttach LawfulMonadAttach

theorem map_of_mapM {ε α β γ : Type} {f : α → Except ε β} {g : β → γ} {h : α → γ}
    (hf : ∀ x y, f x = .ok y → g y = h x) :
    ∀ {xs : List α} {ys : List β}, xs.mapM f = .ok ys → ys.map g = xs.map h
  | [], _, hm => by
    cases hm
    rfl
  | x :: xs, ys, hm => by
    rw [List.mapM_cons, bind_eq_ok_iff] at hm
    obtain ⟨y, hy, hm⟩ := hm
    obtain ⟨ys, hys, hm⟩ := bind_eq_ok_iff.1 hm
    cases hm
    rw [List.map_cons, List.map_cons, hf x y hy, map_of_mapM hf hys]

theorem mem_of_mapM {ε α β : Type} {f : α → Except ε β} :
    ∀ {xs : List α} {ys : List β}, xs.mapM f = .ok ys → ∀ y ∈ ys, ∃ x ∈ xs, f x = .ok y
  | [], _, hm => by
    cases hm
    simp
  | x :: xs, ys, hm => by
    rw [List.mapM_cons, bind_eq_ok_iff] at hm
    obtain ⟨y, hy, hm⟩ := hm
    obtain ⟨ys, hys, hm⟩ := bind_eq_ok_iff.1 hm
    cases hm
    refine List.forall_mem_cons.2 ⟨⟨x, List.mem_cons_self, hy⟩, fun z hz => ?_⟩
    obtain ⟨w, hw, hz⟩ := mem_of_mapM hys z hz
    exact ⟨w, List.mem_cons_of_mem _ hw, hz⟩

theorem ok_of_mapM {ε α β : Type} {f : α → Except ε β} :
    ∀ {xs : List α} {ys : List β}, xs.mapM f = .ok ys → ∀ x ∈ xs, ∃ y ∈ ys, f x = .ok y
  | [], _, _ => by simp
  | x :: xs, ys, hm => by
    rw [List.mapM_cons, bind_eq_ok_iff] at hm
    obtain ⟨y, hy, hm⟩ := hm
    obtain ⟨ys, hys, hm⟩ := bind_eq_ok_iff.1 hm
    cases hm
    refine List.forall_mem_cons.2 ⟨⟨y, List.mem_cons_self, hy⟩, fun z hz => ?_⟩
    obtain ⟨w, hw, hz⟩ := ok_of_mapM hys z hz
    exact ⟨w, List.mem_cons_of_mem _ hw, hz⟩

/-- The names of the resources with their types. -/
def ResourceGraph.typed (g : ResourceGraph) : List (String × String) :=
  g.resources.entries.map fun e => (e.1, e.2.type)

theorem ResourceGraph.names_typed (g : ResourceGraph) :
    g.typed.map Prod.fst = g.resources.names := by
  simp [typed, Table.names, Function.comp_def]

theorem ResourceGraph.mem_typed {g : ResourceGraph} {name type : String} :
    (name, type) ∈ g.typed ↔ ∃ r, g.resource? name = some r ∧ r.type = type := by
  simp only [typed, List.mem_map, Prod.mk.injEq]
  constructor
  · rintro ⟨⟨k, r⟩, he, rfl, rfl⟩
    exact ⟨r, Table.mem_entries.1 he, rfl⟩
  · rintro ⟨r, hr, rfl⟩
    exact ⟨(name, r), Table.mem_entries.2 hr, rfl, rfl⟩

/-- The resources that a server's networks refer to, as often as they do. -/
def Resource.networkReferences (r : Resource) : List String :=
  ((r.properties.get? "networks").map Property.referenceList).getD []

theorem Resource.refersTo_set {r : Resource} {key t : String} {value : Property}
    (h : r.properties.get? key = none) :
    (r.set key value).RefersTo t ↔ value.RefersTo t ∨ r.RefersTo t := by
  constructor
  · exact refersTo_of_set
  · rintro (ht | ⟨k, p, hp, ht⟩)
    · exact ⟨key, value, Table.get?_put.trans (if_pos rfl), ht⟩
    · have hne : k ≠ key := by
        rintro rfl
        rw [h] at hp
        cases hp
      exact ⟨k, p, (Table.get?_put.trans (if_neg hne)).trans hp, ht⟩

namespace Compute

variable (c : Compute) (name : String)

/-- The image of its own that a server has. -/
def ownImage : List (String × String) :=
  if c.image.isNone && c.artifact.isSome then [(imageName name, imageType)] else []

/-- The flavor of its own that a server has. -/
def ownFlavor : List (String × String) :=
  if c.flavor.isNone && c.capabilities.isSome then [(flavorName name, flavorType)] else []

end Compute

namespace Descriptor

variable (d : Descriptor) (name : String) (c : Compute)

/-- The ports of a server, and whether it is managed through them. -/
def ownPorts : List (String × Bool) :=
  (c.networks.map fun r => (portName name r.network, r.management))
    ++ (d.points name).map fun p => (p.1, p.2.management)

/-- The names of the ports of a server. -/
def portNames : List String := (d.ownPorts name c).map Prod.fst

/-- The ports that a server is managed through. -/
def managementPorts : List String := ((d.ownPorts name c).filter Prod.snd).map Prod.fst

/-- The outputs that read the addresses a server is managed at. -/
def ownOutputs : List (String × Output) :=
  (d.managementPorts name c).map fun port => (PortRequest.new port name port).output

/-- What a compute component is compiled into. -/
def ownResources : List (String × String) :=
  (name, serverType) :: (c.ownFlavor name ++ (c.ownImage name
    ++ (d.portNames name c).map fun port => (port, portType)))

end Descriptor

namespace Compile

/-! ## Adding resources -/

/-- Nothing is lost from a graph, and what it holds more is what is listed. -/
structure Adds (g : ResourceGraph) (new : List (String × String)) (g' : ResourceGraph) : Prop where
  typed : g'.typed.Perm (new ++ g.typed)
  kept : ∀ name r, g.resource? name = some r → g'.resource? name = some r
  description : g'.description = g.description
  files : g'.files = g.files

section Adds

variable {g g' g'' : ResourceGraph} {a b : List (String × String)} {name : String} {r : Resource}

theorem Adds.refl : Adds g [] g := ⟨.refl _, fun _ _ h => h, rfl, rfl⟩

theorem Adds.outputs (t : Table Output) : Adds g [] { g with outputs := t } :=
  ⟨.refl _, fun _ _ h => h, rfl, rfl⟩

theorem Adds.trans (h : Adds g a g') (h' : Adds g' b g'') : Adds g (b ++ a) g'' where
  typed := by
    rw [List.append_assoc]
    exact h'.typed.trans (h.typed.append_left b)
  kept name r hr := h'.kept name r (h.kept name r hr)
  description := h'.description.trans h.description
  files := h'.files.trans h.files

theorem Adds.perm (h : Adds g a g') (hab : a.Perm b) : Adds g b g' :=
  { h with typed := h.typed.trans (hab.append_right _) }

theorem of_add (h : add g name r = .ok g') :
    Adds g [(name, r.type)] g' ∧ g'.resource? name = some r ∧ g'.outputs = g.outputs := by
  rw [add, mapError_eq_ok_iff] at h
  unfold ResourceGraph.add at h
  split at h
  · cases h
  · rename_i hfree
    cases h
    have hnone : g.resource? name = none := by
      rw [← Option.not_isSome_iff_eq_none]
      exact hfree
    refine ⟨⟨?_, fun n s hs => ?_, rfl, rfl⟩, ?_, rfl⟩
    · have hput : (g.resources.put name r).entries.Perm ((name, r) :: g.resources.entries) :=
        Entries.put_perm (Entries.get?_eq_none.1 hnone)
      exact hput.map fun e => (e.1, e.2.type)
    · have hne : n ≠ name := by
        rintro rfl
        rw [hnone] at hs
        cases hs
      exact (Table.get?_put.trans (if_neg hne)).trans hs
    · exact Table.get?_put.trans (if_pos rfl)

theorem resource?_of_add (h : add g name r = .ok g')
    (x : String) : g'.resource? x = if x = name then some r else g.resource? x := by
  rw [add, mapError_eq_ok_iff] at h
  unfold ResourceGraph.add at h
  split at h
  · cases h
  · cases h
    exact Table.get?_put

end Adds

/-! ## Putting a server together -/

/-- A server that has no networks yet. -/
def Unplugged (server : Resource) : Prop :=
  server.type = serverType ∧ server.properties.get? "networks" = none

section Server

variable {s : Substitution} {name key : String} {c : Compute} {g g' : ResourceGraph}
variable {server server' : Resource}

theorem Unplugged.set {value : Property} (h : Unplugged server) (hk : key ≠ "networks") :
    Unplugged (server.set key value) :=
  ⟨h.1, (Table.get?_put.trans (if_neg hk.symm)).trans h.2⟩

theorem of_setLeaf {leaf : Option Leaf} (h : setLeaf s key leaf server = .ok server') :
    server' = server ∨ ∃ value, server' = server.set key value := by
  obtain ⟨o, -, h⟩ := bind_eq_ok_iff.1 h
  rcases o with _ | v
  · cases h
    exact .inl rfl
  · cases h
    exact .inr ⟨_, rfl⟩

theorem Unplugged.setLeaf {leaf : Option Leaf} (hu : Unplugged server) (hk : key ≠ "networks")
    (h : setLeaf s key leaf server = .ok server') : Unplugged server' := by
  rcases of_setLeaf h with rfl | ⟨value, rfl⟩
  · exact hu
  · exact hu.set hk

theorem resolveOption_eq_ok {leaf : Option Leaf} {o : Option Value}
    (h : s.resolveOption leaf = .ok o) : o.isNone = leaf.isNone := by
  rcases leaf with _ | l
  · cases h
    rfl
  · obtain ⟨v, -, h⟩ := bind_eq_ok_iff.1 h
    cases h
    rfl

theorem type_of_image {a : ImageArtifact} {image : Resource} (h : a.image name s = .ok image) :
    image.type = imageType := by
  obtain ⟨o, -, h⟩ := bind_eq_ok_iff.1 h
  rcases o with _ | location
  · cases h
  · cases h
    rfl

theorem type_of_flavor {caps : Capabilities} {configured : Table String} {flavor : Resource}
    (h : caps.flavor name s configured = .ok flavor) : flavor.type = flavorType := by
  obtain ⟨vcpus, -, h⟩ := bind_eq_ok_iff.1 h
  obtain ⟨disk, -, h⟩ := bind_eq_ok_iff.1 h
  obtain ⟨ram, -, h⟩ := bind_eq_ok_iff.1 h
  obtain ⟨specs, -, h⟩ := bind_eq_ok_iff.1 h
  dsimp only at h
  split at h
  · cases h
    rfl
  · cases h
    rfl

/-- Gives a server what is named, or else what is made for it under a name of its own. -/
def give (key own : String) (named : Except Fault (Option Value))
    (made : Option (Except Fault Resource)) (g : ResourceGraph) (server : Resource) :
    Except Fault (ResourceGraph × Resource) := do
  match ← named with
  | some v => return (g, server.set key (.ofValue v))
  | none =>
    match made with
    | none => return (g, server)
    | some make =>
      let g ← add g own (← make)
      return (g, server.set key (.resource own))

theorem addImage_eq (g : ResourceGraph) : addImage name c s g server =
    give "image" (imageName name) (s.resolveOption c.image)
      (c.artifact.map fun a => a.image name s) g server := by
  unfold addImage give
  rcases c.artifact with _ | a
  · rfl
  · rfl

theorem addFlavor_eq {settings : CompilerSettings} (g : ResourceGraph) :
    addFlavor settings name c s g server =
      give "flavor" (flavorName name) (s.resolveOption c.flavor)
        (c.capabilities.map fun caps => caps.flavor name s settings.flavorExtraSpecs) g server := by
  unfold addFlavor give
  rcases c.capabilities with _ | caps
  · rfl
  · rfl

/-- Either something is named or nothing is made, and the graph is as it was, or what is made is
added to the graph. -/
theorem of_give_eq_ok {own : String} {named : Except Fault (Option Value)}
    {made : Option (Except Fault Resource)}
    (h : give key own named made g server = .ok (g', server')) :
    (∃ v, named = .ok (some v) ∧ g' = g ∧ server' = server.set key (.ofValue v))
      ∨ (named = .ok none ∧ made = none ∧ g' = g ∧ server' = server)
      ∨ ∃ r, named = .ok none ∧ made = some (.ok r) ∧ add g own r = .ok g'
        ∧ server' = server.set key (.resource own) := by
  obtain ⟨o, ho, h⟩ := bind_eq_ok_iff.1 h
  rcases o with _ | v
  · rcases made with _ | make
    · cases h
      exact .inr (.inl ⟨ho, rfl, rfl, rfl⟩)
    · obtain ⟨r, hr, h⟩ := bind_eq_ok_iff.1 h
      obtain ⟨g₁, hadd, h⟩ := bind_eq_ok_iff.1 h
      cases h
      exact .inr (.inr ⟨r, ho, congrArg some hr, hadd, rfl⟩)
  · cases h
    exact .inl ⟨v, ho, rfl, rfl⟩

theorem of_give {own type : String} {leaf : Option Leaf} {made : Option (Except Fault Resource)}
    (hkey : key ≠ "networks") (hmade : ∀ r, made = some (.ok r) → r.type = type)
    (h : give key own (s.resolveOption leaf) made g server = .ok (g', server'))
    (hu : Unplugged server) :
    Adds g (if leaf.isNone && made.isSome then [(own, type)] else []) g'
      ∧ g'.outputs = g.outputs ∧ Unplugged server' := by
  rcases of_give_eq_ok h with ⟨v, ho, rfl, rfl⟩ | ⟨ho, rfl, rfl, rfl⟩ | ⟨r, ho, rfl, hadd, rfl⟩
  · rw [← resolveOption_eq_ok ho]
    exact ⟨.refl, rfl, hu.set hkey⟩
  · rw [← resolveOption_eq_ok ho]
    exact ⟨.refl, rfl, hu⟩
  · rw [← resolveOption_eq_ok ho, ← hmade r rfl]
    obtain ⟨hadds, -, hout⟩ := of_add hadd
    exact ⟨hadds, hout, hu.set hkey⟩

theorem of_addImage (h : addImage name c s g server = .ok (g', server')) (hu : Unplugged server) :
    Adds g (c.ownImage name) g' ∧ g'.outputs = g.outputs ∧ Unplugged server' := by
  rw [addImage_eq] at h
  rw [Compute.ownImage, ← Option.isSome_map]
  refine of_give (by decide) (fun r hr => ?_) h hu
  obtain ⟨a, -, ha⟩ := Option.map_eq_some_iff.1 hr
  exact type_of_image ha

theorem of_addFlavor {settings : CompilerSettings}
    (h : addFlavor settings name c s g server = .ok (g', server')) (hu : Unplugged server) :
    Adds g (c.ownFlavor name) g' ∧ g'.outputs = g.outputs ∧ Unplugged server' := by
  rw [addFlavor_eq] at h
  rw [Compute.ownFlavor, ← Option.isSome_map]
  refine of_give (by decide) (fun r hr => ?_) h hu
  obtain ⟨caps, -, hcaps⟩ := Option.map_eq_some_iff.1 hr
  exact type_of_flavor hcaps

theorem Unplugged.setDetails (hu : Unplugged server) (h : setDetails c s server = .ok server') :
    Unplugged server' := by
  obtain ⟨metadata, -, h⟩ := bind_eq_ok_iff.1 h
  extract_lets titled rest at h
  obtain ⟨userData, -, h⟩ := bind_eq_ok_iff.1 h
  have htitled : Unplugged titled := by
    unfold titled
    split
    · exact hu
    · exact hu.set (by decide)
  have hrest : ∀ server, Unplugged server → rest server = .ok server' → Unplugged server' := by
    intro server hu h
    obtain ⟨keyed, hkeyed, h⟩ := bind_eq_ok_iff.1 h
    exact (hu.setLeaf (by decide) hkeyed).setLeaf (by decide) h
  rcases userData with _ | v
  · exact hrest _ htitled h
  · exact hrest _ ((htitled.set (by decide)).set (by decide)) h

end Server

/-! ## Ports -/

section Ports

variable {d : Descriptor} {s : Substitution} {name : String} {c : Compute}

/-- What is said of a port before it is made. -/
def label (r : PortRequest) : (String × Bool) × String := ((r.name, r.management), r.compute)

theorem label_of_requirementPort {r : NetworkRequirement} {request : PortRequest}
    (h : requirementPort name s r = .ok request) :
    label request = ((portName name r.network, r.management), name) := by
  obtain ⟨addresses, -, h⟩ := bind_eq_ok_iff.1 h
  obtain ⟨extra, -, h⟩ := bind_eq_ok_iff.1 h
  cases h
  rfl

theorem label_of_connectionPort {p : String × ConnectionPoint} {request : PortRequest}
    (h : connectionPort d name s p = .ok request) :
    label request = ((p.1, p.2.management), name) := by
  rcases p with ⟨cpName, cp⟩
  unfold connectionPort at h
  dsimp -zeta only at h
  extract_lets blank rest at h
  have hrest : ∀ network, rest network = .ok request →
      label request = ((cpName, cp.management), name) := by
    intro network h
    obtain ⟨addresses, -, h⟩ := bind_eq_ok_iff.1 h
    obtain ⟨extra, -, h⟩ := bind_eq_ok_iff.1 h
    cases h
    rfl
  split at h
  · obtain ⟨network, -, h⟩ := bind_eq_ok_iff.1 h
    exact hrest network h
  · cases h

theorem of_portRequests {points : List (String × ConnectionPoint)} {requests : List PortRequest}
    (h : portRequests d name c points s = .ok requests) (hpoints : points.Perm (d.points name)) :
    (requests.map label).Perm ((d.ownPorts name c).map fun own => (own, name))
      ∧ (requests.filter PortRequest.management).length ≤ 1 := by
  obtain ⟨inline, hinline, h⟩ := bind_eq_ok_iff.1 h
  obtain ⟨declared, hdeclared, h⟩ := bind_eq_ok_iff.1 h
  dsimp only at h
  split at h
  · cases h
  · rename_i hlen
    cases h
    refine ⟨?_, Nat.not_lt.1 hlen⟩
    rw [List.map_append, map_of_mapM (fun _ _ => label_of_requirementPort) hinline,
      map_of_mapM (fun _ _ => label_of_connectionPort) hdeclared, Descriptor.ownPorts,
      List.map_append, List.map_map, List.map_map]
    exact (hpoints.map _).append_left _

theorem of_port {r : PortRequest} {port : Port} (h : r.port = .ok port) :
    port.name = r.name ∧ port.resource.type = portType
      ∧ port.managementOutput = if r.management then some r.output else none := by
  unfold PortRequest.port at h
  extract_lets base bound finish at h
  have hbound : bound.type = portType := by
    unfold bound
    split
    · rfl
    · rfl
  have hfinish : ∀ base, base.type = portType → finish base = .ok port → port.name = r.name
      ∧ port.resource.type = portType
      ∧ port.managementOutput = if r.management then some r.output else none := by
    rintro base hbase ⟨⟩
    exact ⟨rfl, hbase, rfl⟩
  split at h
  · exact hfinish _ hbound h
  · split at h
    · obtain ⟨base, hbase, h⟩ := bind_eq_ok_iff.1 h
      cases hbase
      exact hfinish (bound.set _ _) hbound h
    · cases h

section Monad

variable {m : Type → Type} [Monad m] [LawfulMonad m] [MonadAttach m] [LawfulMonadAttach m]
variable {catalog : Catalog m}

/-- The outputs that the ports declare, the last of one name in place of the others. -/
def declare (requests : List PortRequest) (outputs : Table Output) : Table Output :=
  (requests.filter PortRequest.management).foldl (fun t r => t.put r.output.1 r.output.2) outputs

theorem of_addPorts {requests : List PortRequest} {g g' : ResourceGraph} {memo memo' : SupportMemo}
    (h : CanReturn (addPorts catalog requests g memo) (g', memo')) :
    Adds g (requests.map fun r => (r.name, portType)) g'
      ∧ g'.outputs = declare requests g.outputs := by
  induction requests generalizing g memo with
  | nil =>
    cases eq_of_canReturn_pure h
    exact ⟨.refl, rfl⟩
  | cons r rs ih =>
    obtain ⟨port, hport, h⟩ := canReturn_bind_imp' h
    obtain ⟨adapted, hadapted, h⟩ := canReturn_bind_imp' h
    obtain ⟨hname, htype, hout⟩ := of_port (ok_of_canReturn_liftM hport)
    have hadapted := (Resource.adaptsTo_of_canReturn (canReturn_of_lift hadapted)).type
    extract_lets g₁ rest at h
    have hrest : ∀ u, CanReturn (rest u) (g', memo') →
        Adds g ((r :: rs).map fun r => (r.name, portType)) g'
          ∧ g'.outputs = declare (r :: rs) g.outputs := by
      intro u h
      obtain ⟨g₂, hadd, h⟩ := canReturn_bind_imp' h
      obtain ⟨hadds, -, houtputs⟩ := of_add (ok_of_canReturn_liftM hadd)
      obtain ⟨hrest, hdeclared⟩ := ih h
      have hg₁ : g₁ = { g with outputs := declare [r] g.outputs } := by
        unfold g₁
        rw [hout]
        rcases hm : r.management
        · rcases g with ⟨_, _, _, _⟩
          simp [declare, hm]
        · simp [declare, hm, ResourceGraph.addOutput]
      rw [hg₁] at hadds houtputs
      rw [hname, hadapted, htype] at hadds
      refine ⟨((Adds.outputs _).trans hadds |>.trans hrest).perm ?_, ?_⟩
      · rw [List.append_nil]
        exact List.perm_append_singleton _ _
      · rw [hdeclared, houtputs, declare, declare, declare, ← List.foldl_append,
          ← List.filter_append]
        rfl
    split at h
    · obtain ⟨u, hu, -⟩ := canReturn_bind_imp' h
      exact (not_canReturn_throw hu).elim
    · exact hrest () h

end Monad

end Ports

end Compile

end Provision
