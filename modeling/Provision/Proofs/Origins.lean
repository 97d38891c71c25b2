import Provision.Proofs.Compiled
import Provision.Proofs.Inputs

/-!
# Where the properties of compiled resources come from

A property that compilation sets is of its own making, or taken over from a leaf of the descriptor,
or put together from what is (`Origin`). Into which property of which resource a leaf is resolved is
said by `Descriptor.Feeds`. The names of the properties are its own as well, but for ports, which
also take the names that the descriptor has chosen; a port has a network, however. Every resource of
a compiled graph is made so, and what monitoring is told is what the policies of the compute
components say (`Descriptor.traced_of_compile`).
-/

namespace Provision

open MonadAttach LawfulMonadAttach

theorem Entries.of_mem_traverse {ε α β : Type} {f : String → α → Except ε β} {x : String} {b : β} :
    ∀ {es : List (String × α)} {bs}, traverse f es = .ok bs → (x, b) ∈ bs.1 →
      ∃ a, (x, a) ∈ es ∧ f x a = .ok b
  | [], _, h, hb => by
    cases h
    cases hb
  | e :: es, _, h, hb => by
    obtain ⟨c, hc, h⟩ := bind_eq_ok_iff.1 h
    obtain ⟨cs, hcs, h⟩ := bind_eq_ok_iff.1 h
    cases h
    rcases List.mem_cons.1 hb with heq | hb
    · cases heq
      exact ⟨e.2, List.mem_cons_self, hc⟩
    · obtain ⟨a, ha, hf⟩ := of_mem_traverse hcs hb
      exact ⟨a, List.mem_cons_of_mem _ ha, hf⟩

/-- A table that is visited keeps its names, and has under each what the visit came to. -/
theorem Table.of_traverse {ε α β : Type} {f : String → α → Except ε β} {t : Table α}
    {u : Table β} (h : t.traverse f = .ok u) :
    u.names = t.names ∧ ∀ x b, u.get? x = some b → ∃ a, t.get? x = some a ∧ f x a = .ok b := by
  obtain ⟨⟨bs, hnames⟩, hbs, h⟩ := bind_eq_ok_iff.1 h
  cases h
  refine ⟨hnames, fun x b hb => ?_⟩
  obtain ⟨a, ha, hf⟩ := Entries.of_mem_traverse hbs (Table.mem_entries.2 hb)
  exact ⟨a, Table.mem_entries.1 ha, hf⟩

/-- The leaf is in one of the descriptor's components. -/
def Descriptor.Holds (d : Descriptor) (l : Leaf) : Prop :=
  ∃ name c, d.components.get? name = some c ∧ c.Holds l

/-- The leaf of the compute component of this name is resolved into the property under a key of a
resource: of the server, of its image, or of one of its ports. -/
inductive Compute.Feeds (c : Compute) (name : String) : String → String → Leaf → Prop
  | image {l : Leaf} : c.image = some l → Feeds c name name "image" l
  | location {a : ImageArtifact} {l : Leaf} : c.artifact = some a → a.file = some l →
    Feeds c name (imageName name) "location" l
  | flavor {l : Leaf} : c.flavor = some l → Feeds c name name "flavor" l
  | metadata {key : String} {l : Leaf} : c.metadata.get? key = some l →
    Feeds c name name "metadata" l
  | userData {l : Leaf} : c.userData = some l → Feeds c name name "user_data" l
  | keyName {l : Leaf} : c.keyName = some l → Feeds c name name "key_name" l
  | availabilityZone {l : Leaf} : c.availabilityZone = some l →
    Feeds c name name "availability_zone" l
  | addresses {r : NetworkRequirement} {l : Leaf} : r ∈ c.networks → r.addresses = some l →
    Feeds c name (portName name r.network) "fixed_ips" l
  | networkProperty {r : NetworkRequirement} {key : String} {l : Leaf} : r ∈ c.networks →
    r.properties.get? key = some l → Feeds c name (portName name r.network) key l

/-- The leaf is resolved into the property under a key of a resource, or is passed on from there. -/
inductive Descriptor.Feeds (d : Descriptor) : String → String → Leaf → Prop
  | compute {name resource key : String} {c : Compute} {l : Leaf} :
    d.components.get? name = some (.compute c) → c.Feeds name resource key l →
      Feeds d resource key l
  | networkName {name : String} {p : ConnectionPoint} {link : NetworkLink} :
    d.components.get? name = some (.connectionPoint p) →
      d.components.get? p.link = some (.networkLink link) →
        Feeds d name "network" link.networkName
  | addresses {name : String} {p : ConnectionPoint} {l : Leaf} :
    d.components.get? name = some (.connectionPoint p) → p.addresses = some l →
      Feeds d name "fixed_ips" l
  | property {name key : String} {p : ConnectionPoint} {l : Leaf} :
    d.components.get? name = some (.connectionPoint p) → p.properties.get? key = some l →
      Feeds d name key l
  | volume {name : String} {storage : Storage} {l : Leaf} :
    d.components.get? name = some (.storage storage) → storage.image = some l →
      Feeds d name "image" l
  | passed {resource : String} {f : Fallback} {l : Leaf} : f ∈ fallbacks →
    Feeds d resource f.property l → Feeds d resource f.passthrough l

theorem Compute.Feeds.holds {c : Compute} {name resource key : String} {l : Leaf}
    (h : c.Feeds name resource key l) : c.Holds l := by
  cases h with
  | image h => exact .image h
  | location ha h => exact .artifact ha h
  | flavor h => exact .flavor h
  | metadata h => exact .metadata h
  | userData h => exact .userData h
  | keyName h => exact .keyName h
  | availabilityZone h => exact .availabilityZone h
  | addresses hr h => exact .addresses hr h
  | networkProperty hr h => exact .networkProperty hr h

theorem Descriptor.Feeds.holds {d : Descriptor} {resource key : String} {l : Leaf}
    (h : d.Feeds resource key l) : d.Holds l := by
  induction h with
  | compute hc h => exact ⟨_, _, hc, .compute h.holds⟩
  | networkName _ hlink => exact ⟨_, _, hlink, .networkName _⟩
  | addresses hp h => exact ⟨_, _, hp, .addresses h⟩
  | property hp h => exact ⟨_, _, hp, .property h⟩
  | volume hs h => exact ⟨_, _, hs, .image h⟩
  | passed _ _ ih => exact ih

section Origin

variable (d : Descriptor) (s : Substitution) (configured : Table String)

/-- The property under a key of a resource is a leaf that is resolved into it. -/
def Descriptor.Says (name key : String) (p : Property) : Prop :=
  ∃ l v, d.Feeds name key l ∧ s.resolve l = .ok v ∧ p = .ofValue v

variable (name type : String)

/-- Where the property under a key of a resource comes from. -/
inductive Origin : String → Property → Prop
  | bool {key : String} (b : Bool) : Origin key (.bool b)
  | int {key : String} (i : Int) : Origin key (.int i)
  | string {key : String} (text : String) : Origin key (.string text)
  | resource {key : String} (target : String) : Origin key (.resource target)
  | said {key : String} {p : Property} : d.Says s name key p → Origin key p
  | metadata {c : Compute} {t : Table Value} : type = serverType →
    d.components.get? name = some (.compute c) → s.resolveTable c.metadata = .ok t →
      Origin "metadata" (.ofTable (t.map fun _ v => .ofValue v))
  | extraSpecs {compute : String} {caps : Capabilities} {specs : Table String} :
    type = flavorType → caps.extraSpecs compute s = .ok specs →
      Origin "extra_specs" (.ofTable ((specs.extend configured).map fun _ t => .string t))
  | networks {key : String} (requests : List PortRequest) :
    Origin key (Compile.networks requests)
  | addresses {key : String} {l : Leaf} {xs : List Value} : d.Feeds name key l →
    s.resolve l = .ok (.list xs) →
      Origin key (.list (xs.map fun a => .single "ip_address" (.ofValue a)))
  | passed {f : Fallback} {p : Property} : f ∈ fallbacks → Origin f.property p →
    Origin f.passthrough (.single f.property p)
  | joined {f : Fallback} {p : Property} {es : List (String × Property)} : f ∈ fallbacks →
    Origin f.property p → Origin f.passthrough (.map es) →
      Origin f.passthrough (.map (Entries.put f.property p es))

/-- The names that compilation itself gives to properties. -/
def ownKeys : List String :=
  ["image", "flavor", "metadata", "user_data", "user_data_format", "key_name",
    "availability_zone", "networks", "location", "container_format", "disk_format", "name",
    "vcpus", "disk", "ram", "extra_specs", "network", "port_security_enabled",
    "binding:vnic_type", "fixed_ips", "value_specs", "size", "instance_uuid", "volume_id",
    "mountpoint"]

/-- Every property of the resource comes from somewhere, and its name is compilation's own unless
the resource is on a network. -/
structure Resource.Traced (r : Resource) : Prop where
  named : ∀ key, r.properties.contains key = true →
    key ∈ ownKeys ∨ r.properties.contains "network" = true
  origin : ∀ key p, r.properties.get? key = some p → Origin d s configured name r.type key p

/-- Every resource of the graph is traced, those of nested graphs left aside. -/
def ResourceGraph.Traced (g : ResourceGraph) : Prop :=
  ∀ n r, g.resource? n = some r → r.Traced d s configured n

/-- What monitoring is told of a component under a policy is what the policy of the component
says. -/
def Monitoring.Traced (monitoring : Monitoring) : Prop :=
  ∀ component policies policy body, monitoring.get? component = some policies →
    policies.get? policy = some body → ∃ c p t,
      d.components.get? component = some (.compute c) ∧ c.monitoringPolicy = some p
        ∧ p.name = policy ∧ s.resolveTable p.parameters = .ok t
        ∧ body = .object [("actions", .ofTextTable p.actions), ("parameters", .ofTable t)]

end Origin

variable {d : Descriptor} {s : Substitution} {configured : Table String}

namespace Resource

variable {r : Resource} {name key : String} {p : Property}

theorem traced_new (type : String) : (Resource.new type).Traced d s configured name where
  named _ h := by cases h
  origin _ _ h := by cases h

theorem contains_set {k : String} (h : r.properties.contains k = true) :
    (r.set key p).properties.contains k = true := by
  obtain ⟨q, hq⟩ := Table.contains_iff.1 h
  rw [Resource.set, Table.contains, Table.get?_put]
  split_ifs
  · rfl
  · rw [hq]
    rfl

theorem Traced.set (h : r.Traced d s configured name) (hkey : key ∈ ownKeys)
    (hp : Origin d s configured name r.type key p) : (r.set key p).Traced d s configured name where
  named other hother := by
    by_cases heq : other = key
    · exact .inl (heq ▸ hkey)
    · rw [Resource.set, Table.contains, Table.get?_put, if_neg heq] at hother
      exact (h.named other hother).imp_right contains_set
  origin other q hq := by
    rw [Resource.set, Table.get?_put] at hq
    split_ifs at hq with heq
    · cases hq
      rw [heq]
      exact hp
    · exact h.origin other q hq

theorem contains_extend {t : Table Property} {k : String} (h : r.properties.contains k = true) :
    (r.properties.extend t).contains k = true := by
  obtain ⟨q, hq⟩ := Table.contains_iff.1 h
  rw [Table.contains, Table.get?_extend, hq]
  rcases t.get? k with _ | q
  · rfl
  · rfl

/-- The further properties of a port may have any names. -/
theorem Traced.extend {t : Table Property} (h : r.Traced d s configured name)
    (hnetwork : r.properties.contains "network" = true)
    (ht : ∀ key p, t.get? key = some p → d.Says s name key p) :
    ({ r with properties := r.properties.extend t } : Resource).Traced d s configured name where
  named _ _ := .inr (contains_extend hnetwork)
  origin key p hp := by
    rw [Table.get?_extend, Option.or_eq_some_iff] at hp
    rcases hp with hp | ⟨-, hp⟩
    · exact .said (ht key p hp)
    · exact h.origin key p hp

theorem Traced.erase (h : r.Traced d s configured name) (hkey : key ≠ "network") :
    ({ r with properties := r.properties.erase key } : Resource).Traced d s configured name where
  named other hother := by
    obtain ⟨p, hp⟩ := Table.contains_iff.1 hother
    rw [Table.get?_erase] at hp
    split_ifs at hp
    refine (h.named other (Table.contains_of_get? hp)).imp_right fun hold => ?_
    rwa [Table.contains, Table.get?_erase, if_neg hkey.symm]
  origin other p hp := by
    rw [Table.get?_erase] at hp
    split_ifs at hp
    exact h.origin other p hp

end Resource

namespace Compile

variable {g g' : ResourceGraph} {name key : String} {r server server' : Resource}

theorem traced_add (hg : g.Traced d s configured) (hr : r.Traced d s configured name)
    (h : add g name r = .ok g') : g'.Traced d s configured := by
  intro n q hq
  rw [resource?_of_add h] at hq
  split_ifs at hq with heq
  · cases hq
    rw [heq]
    exact hr
  · exact hg n q hq

/-! ## Leaves -/

theorem says_of_resolveOption {leaf : Option Leaf} {v : Value}
    (hl : ∀ l, leaf = some l → d.Feeds name key l) (h : s.resolveOption leaf = .ok (some v)) :
    d.Says s name key (.ofValue v) := by
  rcases leaf with _ | l
  · cases h
  · obtain ⟨w, hw, h⟩ := bind_eq_ok_iff.1 h
    cases h
    exact ⟨l, v, hl l rfl, hw, rfl⟩

theorem says_of_resolveProperties {t : Table Leaf} {properties : Table Property}
    (ht : ∀ key l, t.get? key = some l → d.Feeds name key l)
    (h : s.resolveProperties t = .ok properties) :
    ∀ key p, properties.get? key = some p → d.Says s name key p := by
  obtain ⟨values, hvalues, h⟩ := bind_eq_ok_iff.1 h
  cases h
  intro key p hp
  rw [Table.get?_map] at hp
  obtain ⟨v, hv, rfl⟩ := Option.map_eq_some_iff.1 hp
  obtain ⟨l, hl, hresolve⟩ := (Table.of_traverse hvalues).2 key v hv
  exact ⟨l, v, ht key l hl, hresolve, rfl⟩

theorem traced_setLeaf {leaf : Option Leaf} (hserver : server.Traced d s configured name)
    (hkey : key ∈ ownKeys) (hl : ∀ l, leaf = some l → d.Feeds name key l)
    (h : setLeaf s key leaf server = .ok server') : server'.Traced d s configured name := by
  obtain ⟨o, ho, h⟩ := bind_eq_ok_iff.1 h
  rcases o with _ | v
  · cases h
    exact hserver
  · cases h
    exact hserver.set hkey (.said (says_of_resolveOption hl ho))

/-! ## Servers -/

theorem traced_image {compute : String} {a : ImageArtifact} {image : Resource}
    (hl : ∀ l, a.file = some l → d.Feeds name "location" l) (h : a.image compute s = .ok image) :
    image.Traced d s configured name := by
  obtain ⟨o, ho, h⟩ := bind_eq_ok_iff.1 h
  rcases o with _ | location
  · cases h
  · cases h
    have hlocation := says_of_resolveOption hl ho
    exact ((((Resource.traced_new imageType).set (by decide) (.said hlocation)).set (by decide)
      (.string _)).set (by decide) (.string _)).set (by decide) (.string _)

theorem traced_flavor {compute : String} {caps : Capabilities} {flavor : Resource}
    (h : caps.flavor compute s configured = .ok flavor) : flavor.Traced d s configured name := by
  obtain ⟨vcpus, -, h⟩ := bind_eq_ok_iff.1 h
  obtain ⟨disk, -, h⟩ := bind_eq_ok_iff.1 h
  obtain ⟨ram, -, h⟩ := bind_eq_ok_iff.1 h
  obtain ⟨specs, hspecs, h⟩ := bind_eq_ok_iff.1 h
  extract_lets all sized at h
  have hsized : sized.Traced d s configured name :=
    (((Resource.traced_new flavorType).set (by decide) (.int vcpus)).set (by decide)
      (.int disk)).set (by decide) (.int ram)
  split at h
  · rw [← Except.ok.inj h]
    exact hsized
  · rw [← Except.ok.inj h]
    exact hsized.set (by decide) (.extraSpecs rfl hspecs)

section Server

variable {c : Compute} (hc : d.components.get? name = some (.compute c))
include hc

theorem traced_give {own : String} {leaf : Option Leaf} {made : Option (Except Fault Resource)}
    (hkey : key ∈ ownKeys) (hl : ∀ l, leaf = some l → c.Feeds name name key l)
    (hmade : ∀ r, made = some (.ok r) → r.Traced d s configured own)
    (hg : g.Traced d s configured) (hserver : server.Traced d s configured name)
    (h : give key own (s.resolveOption leaf) made g server = .ok (g', server')) :
    g'.Traced d s configured ∧ server'.Traced d s configured name := by
  rcases of_give_eq_ok h with ⟨v, ho, rfl, rfl⟩ | ⟨-, -, rfl, rfl⟩ | ⟨r, -, hr, hadd, rfl⟩
  · have hv := says_of_resolveOption (fun l h => .compute hc (hl l h)) ho
    exact ⟨hg, hserver.set hkey (.said hv)⟩
  · exact ⟨hg, hserver⟩
  · exact ⟨traced_add hg (hmade r hr) hadd, hserver.set hkey (.resource own)⟩

theorem traced_addImage (hg : g.Traced d s configured) (hserver : server.Traced d s configured name)
    (h : addImage name c s g server = .ok (g', server')) :
    g'.Traced d s configured ∧ server'.Traced d s configured name := by
  rw [addImage_eq] at h
  refine traced_give hc (by decide) (fun _ => .image) (fun r hr => ?_) hg hserver h
  obtain ⟨a, ha, himage⟩ := Option.map_eq_some_iff.1 hr
  exact traced_image (fun l hl => .compute hc (.location ha hl)) himage

theorem traced_addFlavor {settings : CompilerSettings}
    (hg : g.Traced d s settings.flavorExtraSpecs)
    (hserver : server.Traced d s settings.flavorExtraSpecs name)
    (h : addFlavor settings name c s g server = .ok (g', server')) :
    g'.Traced d s settings.flavorExtraSpecs
      ∧ server'.Traced d s settings.flavorExtraSpecs name := by
  rw [addFlavor_eq] at h
  refine traced_give hc (by decide) (fun _ => .flavor) (fun r hr => ?_) hg hserver h
  obtain ⟨caps, -, hflavor⟩ := Option.map_eq_some_iff.1 hr
  exact traced_flavor hflavor

theorem traced_setDetails (hserver : server.Traced d s configured name)
    (htype : server.type = serverType) (h : setDetails c s server = .ok server') :
    server'.Traced d s configured name := by
  obtain ⟨metadata, hmetadata, h⟩ := bind_eq_ok_iff.1 h
  extract_lets titled rest at h
  obtain ⟨userData, huserData, h⟩ := bind_eq_ok_iff.1 h
  have htitled : titled.Traced d s configured name := by
    unfold titled
    split
    · exact hserver
    · obtain ⟨values, hvalues, hmetadata⟩ := bind_eq_ok_iff.1 hmetadata
      cases hmetadata
      exact hserver.set (by decide) (.metadata htype hc hvalues)
  have hrest : ∀ server, server.Traced d s configured name → rest server = .ok server' →
      server'.Traced d s configured name := by
    intro server hserver h
    obtain ⟨keyed, hkeyed, h⟩ := bind_eq_ok_iff.1 h
    have hkeyed := traced_setLeaf hserver (by decide)
      (fun l hl => .compute hc (.keyName hl)) hkeyed
    exact traced_setLeaf hkeyed (by decide)
      (fun l hl => .compute hc (.availabilityZone hl)) h
  rcases userData with _ | v
  · exact hrest _ htitled h
  · have hv := says_of_resolveOption (fun l hl => .compute hc (.userData hl)) huserData
    exact hrest _ ((htitled.set (by decide) (.said hv)).set (by decide) (.string _)) h

end Server

/-! ## Ports -/

/-- What a port is asked for with comes from the descriptor, but for a network that is named. -/
structure TracedRequest (d : Descriptor) (s : Substitution) (r : PortRequest) : Prop where
  network : d.Says s r.name "network" r.network ∨ ∃ text, r.network = .string text
  addresses : ∀ v, r.addresses = some v → ∃ l, d.Feeds r.name "fixed_ips" l ∧ s.resolve l = .ok v
  extra : ∀ key p, r.extra.get? key = some p → d.Says s r.name key p

theorem resolved_of_resolveOption {leaf : Option Leaf} {o : Option Value}
    (hl : ∀ l, leaf = some l → d.Feeds name key l) (h : s.resolveOption leaf = .ok o) :
    ∀ v, o = some v → ∃ l, d.Feeds name key l ∧ s.resolve l = .ok v := by
  rintro v rfl
  rcases leaf with _ | l
  · cases h
  · obtain ⟨w, hw, h⟩ := bind_eq_ok_iff.1 h
    cases h
    exact ⟨l, hl l rfl, hw⟩

theorem traced_requirementPort {c : Compute} (hc : d.components.get? name = some (.compute c))
    {r : NetworkRequirement} (hr : r ∈ c.networks) {request : PortRequest}
    (h : requirementPort name s r = .ok request) : TracedRequest d s request := by
  obtain ⟨addresses, haddresses, h⟩ := bind_eq_ok_iff.1 h
  obtain ⟨extra, hextra, h⟩ := bind_eq_ok_iff.1 h
  cases h
  exact ⟨.inr ⟨_, rfl⟩,
    resolved_of_resolveOption (fun l hl => .compute hc (.addresses hr hl)) haddresses,
    says_of_resolveProperties (fun _ l hl => .compute hc (.networkProperty hr hl)) hextra⟩

theorem traced_connectionPort {p : String × ConnectionPoint}
    (hp : d.components.get? p.1 = some (.connectionPoint p.2)) {request : PortRequest}
    (h : connectionPort d name s p = .ok request) : TracedRequest d s request := by
  rcases p with ⟨cpName, cp⟩
  unfold connectionPort at h
  dsimp -zeta only at h
  extract_lets blank rest at h
  have hrest : ∀ network, d.Says s cpName "network" (.ofValue network) →
      rest network = .ok request →
      TracedRequest d s request := by
    intro network hnetwork h
    obtain ⟨addresses, haddresses, h⟩ := bind_eq_ok_iff.1 h
    obtain ⟨extra, hextra, h⟩ := bind_eq_ok_iff.1 h
    cases h
    exact ⟨.inl hnetwork,
      resolved_of_resolveOption (fun l hl => .addresses hp hl) haddresses,
      says_of_resolveProperties (fun _ l hl => .property hp hl) hextra⟩
  split at h
  · rename_i link hlink
    obtain ⟨network, hnetwork, h⟩ := bind_eq_ok_iff.1 h
    exact hrest network ⟨_, _, .networkName hp hlink, hnetwork, rfl⟩ h
  · cases h

theorem traced_portRequests {c : Compute} {points : List (String × ConnectionPoint)}
    {requests : List PortRequest} (hc : d.components.get? name = some (.compute c))
    (hpoints : ∀ p ∈ points, d.components.get? p.1 = some (.connectionPoint p.2))
    (h : portRequests d name c points s = .ok requests) :
    ∀ r ∈ requests, TracedRequest d s r := by
  obtain ⟨inline, hinline, h⟩ := bind_eq_ok_iff.1 h
  obtain ⟨declared, hdeclared, h⟩ := bind_eq_ok_iff.1 h
  dsimp only at h
  split at h
  · cases h
  · cases h
    intro r hr
    rcases List.mem_append.1 hr with hr | hr
    · obtain ⟨x, hx, hr⟩ := mem_of_mapM hinline r hr
      exact traced_requirementPort hc hx hr
    · obtain ⟨x, hx, hr⟩ := mem_of_mapM hdeclared r hr
      exact traced_connectionPort (hpoints x hx) hr

theorem traced_port {r : PortRequest} {port : Port} (hr : TracedRequest d s r)
    (h : r.port = .ok port) : port.resource.Traced d s configured r.name := by
  unfold PortRequest.port at h
  extract_lets base bound finish at h
  have hnetwork : Origin d s configured r.name portType "network" r.network := by
    rcases hr.network with hsays | ⟨text, heq⟩
    · exact .said hsays
    · exact heq ▸ .string text
  have hbase : base.Traced d s configured r.name
      ∧ base.properties.contains "network" = true := by
    refine ⟨((Resource.traced_new portType).set (by decide) hnetwork).set (by decide) (.bool _),
      Resource.contains_set ?_⟩
    exact Table.contains_of_get? (Table.get?_put.trans (if_pos rfl))
  have hbound : bound.Traced d s configured r.name
      ∧ bound.properties.contains "network" = true := by
    unfold bound
    split
    · exact ⟨hbase.1.set (by decide) (.string _), Resource.contains_set hbase.2⟩
    · exact hbase
  have hfinish : ∀ base : Resource, base.Traced d s configured r.name →
      base.properties.contains "network" = true → finish base = .ok port →
        port.resource.Traced d s configured r.name := by
    rintro base hbase hnetwork ⟨⟩
    exact hbase.extend hnetwork hr.extra
  split at h
  -- The further properties come last, over a port that has its network already.
  · exact hfinish _ hbound.1 hbound.2 h
  · rename_i addresses haddresses
    split at h
    · rename_i ips hips
      obtain ⟨base, hset, h⟩ := bind_eq_ok_iff.1 h
      cases hset
      refine hfinish _ (hbound.1.set (by decide) ?_) (Resource.contains_set hbound.2) h
      obtain ⟨l, hl, hresolve⟩ := hr.addresses _ haddresses
      unfold PortRequest.fixedAddresses? at hips
      split at hips
      · cases hips
        exact .addresses hl hresolve
      · cases hips
    · cases h

theorem traced_nest {compute : String} {f : Fallback} {value : Property}
    (hr : r.Traced d s configured name) (hf : f ∈ fallbacks)
    (hvalue : Origin d s configured name r.type f.property value) :
    (r.nest compute f value).1.Traced d s configured name := by
  have hne : f.property ≠ "network" ∧ f.passthrough ∈ ownKeys := by
    obtain rfl := List.mem_singleton.1 hf
    decide
  -- A property that is passed on is taken out, but never the network.
  have herase := hr.erase hne.1
  unfold Resource.nest
  dsimp only
  split
  · exact herase.set hne.2 (.passed hf hvalue)
  · rename_i es hes
    exact herase.set hne.2 (.joined hf hvalue (herase.origin _ _ hes))
  · exact herase

section Monad

variable {m : Type → Type} [Monad m] [LawfulMonad m] [MonadAttach m] [LawfulMonadAttach m]
variable {catalog : Catalog m}

theorem traced_adaptBy {compute : String} {fs : List Fallback} {memo : SupportMemo}
    {adapted : Adapted} (hr : r.Traced d s configured name) (hfs : ∀ f ∈ fs, f ∈ fallbacks)
    (h : CanReturn (r.adaptBy catalog compute fs memo) adapted) :
    adapted.resource.Traced d s configured name := by
  refine (Resource.adaptsTo_of_canReturn h).preserves hr fun f hf r value hvalue hr => ?_
  exact traced_nest hr (hfs f hf) (hr.origin _ _ (Resource.concern?_eq_some_iff.1 hvalue).2)

theorem traced_addPorts {requests : List PortRequest} {memo memo' : SupportMemo}
    (hg : g.Traced d s configured) (hrequests : ∀ r ∈ requests, TracedRequest d s r)
    (h : CanReturn (addPorts catalog requests g memo) (g', memo')) :
    g'.Traced d s configured := by
  induction requests generalizing g memo with
  | nil =>
    cases eq_of_canReturn_pure h
    exact hg
  | cons r rs ih =>
    rw [List.forall_mem_cons] at hrequests
    obtain ⟨port, hport, h⟩ := canReturn_bind_imp' h
    obtain ⟨adapted, hadapted, h⟩ := canReturn_bind_imp' h
    have hport := ok_of_canReturn_liftM hport
    have htraced : adapted.resource.Traced d s configured port.name := by
      rw [(of_port hport).1]
      exact traced_adaptBy (traced_port hrequests.1 hport) (fun _ hf => hf)
        (canReturn_of_lift hadapted)
    extract_lets g₁ rest at h
    have hg₁ : g₁.Traced d s configured := by
      unfold g₁
      split
      · exact hg
      · exact hg
    have hrest : ∀ u, CanReturn (rest u) (g', memo') → g'.Traced d s configured := by
      intro u h
      obtain ⟨g₂, hadd, h⟩ := canReturn_bind_imp' h
      exact ih (traced_add hg₁ htraced (ok_of_canReturn_liftM hadd)) hrequests.2 h
    split at h
    · obtain ⟨u, hu, -⟩ := canReturn_bind_imp' h
      exact (not_canReturn_throw hu).elim
    · exact hrest () h

end Monad

/-! ## Components -/

theorem traced_attachment {storage compute : String} :
    (attachment storage compute).Traced d s configured name :=
  ((Resource.traced_new attachmentType).set (by decide) (.resource _)).set (by decide)
    (.resource _)

theorem traced_addStorage {storage : Storage} (hg : g.Traced d s configured)
    (hs : d.components.get? name = some (.storage storage))
    (h : addStorage d s name storage g = .ok g') : g'.Traced d s configured := by
  unfold addStorage at h
  extract_lets bare attach build sized at h
  split at h
  · cases h
  · obtain ⟨size, -, h⟩ := bind_eq_ok_iff.1 h
    split at h
    · obtain ⟨gb, -, h⟩ := bind_eq_ok_iff.1 h
      obtain ⟨volume, hvolume, h⟩ := bind_eq_ok_iff.1 h
      obtain ⟨g₁, hadd, h⟩ := bind_eq_ok_iff.1 h
      have hsized : ((Resource.new volumeType).set "size" (.int gb)).Traced d s configured name :=
        (Resource.traced_new volumeType).set (by decide) (.int gb)
      have hvolume := traced_setLeaf hsized (by decide)
        (fun l hl => .volume hs hl) hvolume
      have hattach : attach.Traced d s configured (attachmentName name) := by
        unfold attach
        split
        · exact traced_attachment.set (by decide) (.string _)
        · exact traced_attachment
      exact traced_add (traced_add hg hvolume hadd) hattach h
    · cases h

theorem traced_addStorages {storages : List (String × Storage)} (hg : g.Traced d s configured)
    (hs : ∀ e ∈ storages, d.components.get? e.1 = some (.storage e.2))
    (h : addStorages d s storages g = .ok g') : g'.Traced d s configured := by
  induction storages generalizing g with
  | nil =>
    cases h
    exact hg
  | cons e storages ih =>
    rw [List.forall_mem_cons] at hs
    obtain ⟨g₁, hfirst, h⟩ := bind_eq_ok_iff.1 h
    exact ih (traced_addStorage hg hs.1 hfirst) hs.2 h

section Monad

variable {m : Type → Type} [Monad m] [LawfulMonad m] [MonadAttach m] [LawfulMonadAttach m]
variable {catalog : Catalog m} {settings : CompilerSettings}

theorem traced_addCompute {c : Compute} {points : List (String × ConnectionPoint)}
    {memo memo' : SupportMemo} (hg : g.Traced d s settings.flavorExtraSpecs)
    (hc : d.components.get? name = some (.compute c))
    (hpoints : ∀ p ∈ points, d.components.get? p.1 = some (.connectionPoint p.2))
    (h : CanReturn (addCompute settings catalog d points s name c g memo) (g', memo')) :
    g'.Traced d s settings.flavorExtraSpecs := by
  obtain ⟨⟨g₁, server₁⟩, himage, h⟩ := canReturn_bind_imp' h
  obtain ⟨⟨g₂, server₂⟩, hflavor, h⟩ := canReturn_bind_imp' h
  obtain ⟨server₃, hdetails, h⟩ := canReturn_bind_imp' h
  obtain ⟨requests, hrequests, h⟩ := canReturn_bind_imp' h
  obtain ⟨⟨g₃, memo₃⟩, hports, h⟩ := canReturn_bind_imp' h
  obtain ⟨g₄, hserver, h⟩ := canReturn_bind_imp' h
  cases eq_of_canReturn_pure (m := m) h
  -- Metadata have their origin in a server, so the type is followed along.
  have hnew : Unplugged (Resource.new serverType) := ⟨rfl, rfl⟩
  obtain ⟨-, -, hu₁⟩ := of_addImage (ok_of_canReturn_liftM himage) hnew
  obtain ⟨-, -, hu₂⟩ := of_addFlavor (ok_of_canReturn_liftM hflavor) hu₁
  obtain ⟨hg₁, hs₁⟩ := traced_addImage hc hg (Resource.traced_new serverType)
    (ok_of_canReturn_liftM himage)
  obtain ⟨hg₂, hs₂⟩ := traced_addFlavor hc hg₁ hs₁ (ok_of_canReturn_liftM hflavor)
  have hs₃ := traced_setDetails hc hs₂ hu₂.1 (ok_of_canReturn_liftM hdetails)
  have hg₃ := traced_addPorts hg₂
    (traced_portRequests hc hpoints (ok_of_canReturn_liftM hrequests)) hports
  refine traced_add hg₃ ?_ (ok_of_canReturn_liftM hserver)
  split
  · exact hs₃
  · exact hs₃.set (by decide) (.networks requests)

theorem traced_addMonitoring {c : Compute} {monitoring monitoring' : Monitoring}
    (hmonitoring : monitoring.Traced d s) (hc : d.components.get? name = some (.compute c))
    (h : addMonitoring s name c.monitoringPolicy monitoring = .ok monitoring') :
    monitoring'.Traced d s := by
  rcases hp : c.monitoringPolicy with _ | p
  · rw [hp] at h
    cases h
    exact hmonitoring
  · rw [hp] at h
    obtain ⟨t, ht, h⟩ := bind_eq_ok_iff.1 h
    cases h
    intro component policies policy body hpolicies hbody
    -- Under another name nothing is new, and under the same name only one policy is.
    rw [Table.get?_put] at hpolicies
    split_ifs at hpolicies with hname
    · cases hpolicies
      rw [Table.get?_put] at hbody
      split_ifs at hbody with hpolicy
      · cases hbody
        exact ⟨c, p, t, hname ▸ hc, hp, hpolicy.symm, ht, rfl⟩
      · rcases hold : monitoring.get? name with _ | policies
        · rw [hold] at hbody
          cases hbody
        · rw [hold] at hbody
          rw [hname]
          exact hmonitoring name policies policy body hold hbody
    · exact hmonitoring component policies policy body hpolicies hbody

theorem traced_addComputes {points : PointsByCompute} {cs : List (String × Compute)}
    {done done' : Compiled} {memo : SupportMemo}
    (hdone : done.graph.Traced d s settings.flavorExtraSpecs ∧ done.monitoring.Traced d s)
    (hcs : ∀ e ∈ cs, d.components.get? e.1 = some (.compute e.2))
    (hpoints : ∀ compute, ∀ p ∈ (points.get? compute).getD [],
      d.components.get? p.1 = some (.connectionPoint p.2))
    (h : CanReturn (addComputes settings catalog d points s cs done memo) done') :
    done'.graph.Traced d s settings.flavorExtraSpecs ∧ done'.monitoring.Traced d s := by
  induction cs generalizing done memo with
  | nil =>
    cases eq_of_canReturn_pure (m := m) h
    exact hdone
  | cons e cs ih =>
    rw [List.forall_mem_cons] at hcs
    obtain ⟨⟨g₁, memo₁⟩, hcompute, h⟩ := canReturn_bind_imp' h
    obtain ⟨monitoring, hmonitoring, h⟩ := canReturn_bind_imp' h
    exact ih ⟨traced_addCompute hdone.1 hcs.1 (hpoints e.1) hcompute,
      traced_addMonitoring hdone.2 hcs.1 (ok_of_canReturn_liftM hmonitoring)⟩ hcs.2 h

end Monad

end Compile

namespace Descriptor

variable {m : Type → Type} [Monad m] [LawfulMonad m] [MonadAttach m] [LawfulMonadAttach m]
variable {settings : CompilerSettings} {parameters : Option Parameters}
variable {catalog : Catalog m} {compiled : Compiled}

theorem mem_pointsByCompute {points : Compile.PointsByCompute}
    (h : Compile.pointsByCompute d = .ok points) (compute : String) :
    ∀ p ∈ (points.get? compute).getD [],
      d.components.get? p.1 = some (.connectionPoint p.2) := by
  intro p hp
  rw [(Compile.of_pointsByCompute h).2, List.mem_mergeSort] at hp
  exact mem_select_connectionPoint.1 (List.mem_of_mem_filter hp)

theorem traced_of_compile (h : CanReturn (d.compile settings parameters catalog) compiled) :
    compiled.graph.Traced d ⟨parameters, d.inputs⟩ settings.flavorExtraSpecs
      ∧ compiled.monitoring.Traced d ⟨parameters, d.inputs⟩ := by
  obtain ⟨s, hs, h⟩ := canReturn_bind_imp' h
  obtain rfl := Substitution.eq_of_prepare (ok_of_canReturn_liftM hs)
  obtain ⟨points, hpoints, h⟩ := canReturn_bind_imp' h
  obtain ⟨done, hdone, h⟩ := canReturn_bind_imp' h
  obtain ⟨g, hg, h⟩ := canReturn_bind_imp' h
  obtain ⟨_, -, h⟩ := canReturn_bind_imp' h
  cases eq_of_canReturn_pure (m := m) h
  have hstart : ({ ResourceGraph.empty with description := d.description } : ResourceGraph).Traced d
        ⟨parameters, d.inputs⟩ settings.flavorExtraSpecs
      ∧ Monitoring.Traced d ⟨parameters, d.inputs⟩ .empty :=
    ⟨fun _ _ h => (by cases h), fun _ _ _ _ h => by cases h⟩
  obtain ⟨hgraph, hmonitoring⟩ := Compile.traced_addComputes hstart
    (fun e he => mem_computes.1 he) (mem_pointsByCompute (ok_of_canReturn_liftM hpoints)) hdone
  exact ⟨Compile.traced_addStorages hgraph (fun e he => mem_select_storage.1 he)
    (ok_of_canReturn_liftM hg), hmonitoring⟩

end Descriptor

end Provision
