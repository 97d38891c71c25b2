import Provision.Proofs.Documents
import Provision.Proofs.Origins
import Provision.Descriptor.Codec

/-!
# Where the leaves of a descriptor come from

Whatever a document says, every leaf of the descriptor that is read from it was read from a JSON
value (`Descriptor.read_of_ofNode?`). So no leaf has a mapping in it that looks like an input and is
none. The readers of records are gone through one by one; what they have in common is that they
deliver nothing that the readers of their parts do not (`Gives`).
-/

namespace Provision

/-- The leaf is what some JSON value says. -/
def Leaf.IsRead (l : Leaf) : Prop := ∃ w, l = .ofValue w

section Gives

variable {α : Type} {read : Node → Option α} {P : α → Prop}

/-- Whatever is read is as `P` says. -/
def Gives (read : Node → Option α) (P : α → Prop) : Prop := ∀ n a, read n = some a → P a

theorem Gives.list (h : Gives read P) : Gives (Node.list? read) fun as => ∀ a ∈ as, P a := by
  have hmapM : ∀ {xs : List Node} {as : List α}, xs.mapM read = some as → ∀ a ∈ as, P a := by
    intro xs as has a ha
    obtain ⟨n, -, hn⟩ := exists_of_mapM has a ha
    exact h n a hn
  intro n as hread
  unfold Node.list? at hread
  split at hread
  · exact hmapM hread
  · exact hmapM hread
  · split_ifs at hread
    cases hread
    simp

theorem Gives.table (h : Gives read P) :
    Gives (Node.table? read) fun t => ∀ key a, t.get? key = some a → P a := by
  intro n t hread key a ha
  simp only [Node.table?, Option.bind_eq_bind, Option.bind_eq_some_iff] at hread
  obtain ⟨es, -, fs, hfs, ht⟩ := hread
  cases ht
  have hmem : (key, a) ∈ fs := Entries.mem_of_mem_ofList (Table.mem_entries.2 ha)
  obtain ⟨⟨k, x⟩, -, hx⟩ := exists_of_mapM hfs (key, a) hmem
  simp only [Option.bind_eq_some_iff] at hx
  obtain ⟨name, -, b, hb, heq⟩ := hx
  cases heq
  exact h x a hb

variable {fs : Node.Fields} {name : String}

theorem Gives.required (h : Gives read P) {a : α} (ha : fs.required name read = some a) : P a := by
  simp only [Node.Fields.required, Option.bind_eq_bind, Option.bind_eq_some_iff] at ha
  obtain ⟨o, -, n, -, ha⟩ := ha
  exact h n a ha

theorem Gives.withDefault (h : Gives read P) {dflt a : α} (hdflt : P dflt)
    (ha : fs.withDefault name dflt read = some a) : P a := by
  simp only [Node.Fields.withDefault, Option.bind_eq_bind, Option.bind_eq_some_iff] at ha
  obtain ⟨_ | n, -, ha⟩ := ha
  · cases ha
    exact hdflt
  · exact h n a ha

theorem Gives.optional (h : Gives read P) {o : Option α} (ho : fs.optional name read = some o) :
    ∀ a, o = some a → P a := by
  have hoption : Gives (Node.option? read) fun o => ∀ a, o = some a → P a := by
    rintro n _ hread a rfl
    unfold Node.option? at hread
    split_ifs at hread
    · cases hread
    obtain ⟨b, hb, heq⟩ := Option.map_eq_some_iff.1 hread
    cases heq
    exact h n a hb
  exact hoption.withDefault (fun _ h => by cases h) ho

theorem Gives.filed (h : Gives read P) {t : Table α}
    (ht : fs.withDefault name .empty (Node.table? read) = some t) :
    ∀ key a, t.get? key = some a → P a :=
  h.table.withDefault (fun _ _ h => by cases h) ht

end Gives

theorem Leaf.gives : Gives ofNode? IsRead := by
  intro n l h
  obtain ⟨w, -, rfl⟩ := Option.map_eq_some_iff.1 h
  exact ⟨w, rfl⟩

theorem Capabilities.gives : Gives ofNode? fun c => ∀ l, c.Holds l → l.IsRead := by
  intro n c h
  simp only [ofNode?, Option.bind_eq_bind, Option.bind_eq_some_iff] at h
  obtain ⟨fs, -, numCpus, hnumCpus, diskSize, hdiskSize, memSize, hmemSize, memPageSize,
    hmemPageSize, numaNodeCount, hnumaNodeCount, numaNodes, hnumaNodes, cpuAllocation,
    hcpuAllocation, h⟩ := h
  cases h
  intro l hl
  cases hl with
  | numCpus hl => exact Leaf.gives.optional hnumCpus l hl
  | diskSize hl => exact Leaf.gives.optional hdiskSize l hl
  | memSize hl => exact Leaf.gives.optional hmemSize l hl
  | memPageSize hl => exact Leaf.gives.optional hmemPageSize l hl
  | numaNodeCount hl => exact Leaf.gives.optional hnumaNodeCount l hl
  | numaNode hnode hl =>
    exact Leaf.gives.table.filed hnumaNodes _ _ hnode _ _ hl
  | cpuAllocation hl =>
    exact Leaf.gives.filed hcpuAllocation _ _ hl

theorem NetworkRequirement.gives : Gives ofNode? fun r =>
    (∀ l, r.addresses = some l → l.IsRead)
      ∧ ∀ key l, r.properties.get? key = some l → l.IsRead := by
  intro n r h
  simp only [ofNode?, Option.bind_eq_bind, Option.bind_eq_some_iff] at h
  obtain ⟨fs, -, network, -, management, -, addresses, haddresses, properties, hproperties, h⟩ := h
  cases h
  exact ⟨Leaf.gives.optional haddresses,
    Leaf.gives.filed hproperties⟩

theorem MonitoringPolicy.gives : Gives ofNode? fun p =>
    ∀ key l, p.parameters.get? key = some l → l.IsRead := by
  intro n p h
  simp only [ofNode?, Option.bind_eq_bind, Option.bind_eq_some_iff] at h
  obtain ⟨fs, -, name, -, parameters, hparameters, actions, -, h⟩ := h
  cases h
  exact Leaf.gives.filed hparameters

theorem ImageArtifact.gives : Gives ofNode? fun a => ∀ l, a.file = some l → l.IsRead := by
  intro n a h
  simp only [ofNode?, Option.bind_eq_bind, Option.bind_eq_some_iff] at h
  obtain ⟨fs, -, file, hfile, h⟩ := h
  cases h
  exact Leaf.gives.optional hfile

theorem Compute.gives : Gives ofNode? fun c => ∀ l, c.Holds l → l.IsRead := by
  intro n c h
  simp only [ofNode?, Option.bind_eq_bind, Option.bind_eq_some_iff] at h
  obtain ⟨fs, -, image, himage, artifact, hartifact, flavor, hflavor, capabilities, hcapabilities,
    networks, hnetworks, metadata, hmetadata, monitoring, hmonitoring, userData, huserData, keyName,
    hkeyName, zone, hzone, h⟩ := h
  cases h
  have hnetworks := NetworkRequirement.gives.list.withDefault (fun _ h => by cases h) hnetworks
  intro l hl
  cases hl with
  | image hl => exact Leaf.gives.optional himage l hl
  | artifact ha hl => exact ImageArtifact.gives.optional hartifact _ ha l hl
  | flavor hl => exact Leaf.gives.optional hflavor l hl
  | capabilities hc hl => exact Capabilities.gives.optional hcapabilities _ hc l hl
  | addresses hr hl => exact (hnetworks _ hr).1 l hl
  | networkProperty hr hl => exact (hnetworks _ hr).2 _ l hl
  | metadata hl => exact Leaf.gives.filed hmetadata _ l hl
  | monitoring hp hl => exact MonitoringPolicy.gives.optional hmonitoring _ hp _ l hl
  | userData hl => exact Leaf.gives.optional huserData l hl
  | keyName hl => exact Leaf.gives.optional hkeyName l hl
  | availabilityZone hl => exact Leaf.gives.optional hzone l hl

theorem Storage.gives : Gives ofNode? fun s =>
    s.size.IsRead ∧ ∀ l, s.image = some l → l.IsRead := by
  intro n s h
  simp only [ofNode?, Option.bind_eq_bind, Option.bind_eq_some_iff] at h
  obtain ⟨fs, -, size, hsize, image, himage, attachedTo, -, mountPoint, -, h⟩ := h
  cases h
  exact ⟨Leaf.gives.required hsize, Leaf.gives.optional himage⟩

theorem NetworkLink.gives : Gives ofNode? fun l => l.networkName.IsRead := by
  intro n l h
  simp only [ofNode?, Option.bind_eq_bind, Option.bind_eq_some_iff] at h
  obtain ⟨fs, -, networkName, hname, h⟩ := h
  cases h
  exact Leaf.gives.required hname

theorem ConnectionPoint.gives : Gives ofNode? fun p =>
    (∀ l, p.addresses = some l → l.IsRead)
      ∧ ∀ key l, p.properties.get? key = some l → l.IsRead := by
  intro n p h
  simp only [ofNode?, Option.bind_eq_bind, Option.bind_eq_some_iff] at h
  obtain ⟨fs, -, binding, -, link, -, management, -, antiSpoofing, -, vnic, -, addresses,
    haddresses, order, -, properties, hproperties, h⟩ := h
  cases h
  exact ⟨Leaf.gives.optional haddresses,
    Leaf.gives.filed hproperties⟩

theorem Component.gives : Gives ofNode? fun c => ∀ l, c.Holds l → l.IsRead := by
  intro n c h l hl
  simp only [ofNode?, Option.bind_eq_bind, Option.bind_eq_some_iff] at h
  obtain ⟨⟨kind, fields⟩, -, h⟩ := h
  split at h
  · obtain ⟨c, hc, rfl⟩ := Option.map_eq_some_iff.1 h
    cases hl with
    | compute hl => exact Compute.gives fields c hc l hl
  · obtain ⟨s, hs, rfl⟩ := Option.map_eq_some_iff.1 h
    cases hl with
    | size => exact (Storage.gives fields s hs).1
    | image hl => exact (Storage.gives fields s hs).2 l hl
  · obtain ⟨n, hn, rfl⟩ := Option.map_eq_some_iff.1 h
    cases hl with
    | networkName => exact NetworkLink.gives fields n hn
  · obtain ⟨p, hp, rfl⟩ := Option.map_eq_some_iff.1 h
    cases hl with
    | addresses hl => exact (ConnectionPoint.gives fields p hp).1 l hl
    | property hl => exact (ConnectionPoint.gives fields p hp).2 _ l hl
  · cases h

/-- Every leaf of a descriptor that a document says was read from a JSON value. -/
theorem Descriptor.read_of_ofNode? {n : Node} {d : Descriptor} (h : ofNode? n = some d) :
    ∀ l, d.Holds l → l.IsRead := by
  simp only [ofNode?, Option.bind_eq_bind, Option.bind_eq_some_iff] at h
  obtain ⟨fs, -, name, -, description, -, inputs, -, components, hcomponents, policies, -, h⟩ := h
  cases h
  rintro l ⟨key, c, hc, hl⟩
  exact Component.gives.filed hcomponents key c hc l hl

end Provision
