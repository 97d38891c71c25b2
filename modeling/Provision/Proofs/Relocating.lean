import Provision.Proofs.Adapting
import Provision.Proofs.Compiled
import Provision.Proofs.Inputs

/-!
# What it costs to move a property

A property that an endpoint does not support is taken out before it is known whether its passthrough
can take it in. If it cannot, the property is lost with the fault; a fault of the catalog alone
leaves the resource as it was (`intact_iff_unanswered`).

If it can, the property takes the place of an entry of its own name. Nothing else is lost
(`Carries`), so a port keeps all that a descriptor has its passthrough say unless that entry said
something else (`adapt_carries`).
-/

namespace Provision

open MonadAttach LawfulMonadAttach

namespace Resource

/-- After a fault the resource has the properties that it had before if and only if the catalog was
at fault. After any other fault it lacks the property that was to be moved: its passthrough holds no
mapping, and that is what the fault says. -/
theorem intact_iff_unanswered {m : Type → Type} [Monad m] [LawfulMonad m] [MonadAttach m]
    [LawfulMonadAttach m] {catalog : Catalog m} {name : String} {r : Resource} {memo : SupportMemo}
    {a : Adapted} {fault : Fault} (h : CanReturn (r.adapt catalog name memo) a)
    (hfault : a.fault = some fault) :
    (a.resource.properties = r.properties ↔ ∃ e, fault = .service e)
      ∧ ((∀ e, fault ≠ .service e) → ∃ f ∈ fallbacks, ∃ other, r.type = f.type
        ∧ r.properties.contains f.property = true
        ∧ r.properties.get? f.passthrough = some other ∧ (∀ es, other ≠ .map es)
        ∧ fault = .invalidCapability name (.passthroughNoMapping f.passthrough other.debug)
        ∧ a.resource = { r with properties := r.properties.erase f.property }) := by
  obtain ⟨f, hf⟩ : ∃ f, f ∈ fallbacks := ⟨_, List.mem_singleton_self _⟩
  rcases (adaptsTo_of_adapt hf h).intact_or_nested with ⟨hr, he⟩ | ⟨value, hvalue, hnest⟩
  · rw [hfault] at he
    obtain ⟨e, he⟩ := he.resolve_left (by simp)
    cases he
    exact ⟨iff_of_true (by rw [hr]) ⟨e, rfl⟩, fun hne => absurd rfl (hne e)⟩
  · obtain ⟨htype, hget⟩ := concern?_eq_some_iff.1 hvalue
    rcases hpassed : r.passed? f with _ | es
    · obtain ⟨other, hother, hmap, hlost⟩ :=
        nest_of_unpassed name value (property_ne_passthrough hf) hpassed
      rw [hlost, Prod.mk.injEq, hfault, Option.some.injEq] at hnest
      obtain ⟨hresource, rfl⟩ := hnest
      refine ⟨iff_of_false (fun hsame => ?_) (by simp), fun _ => ⟨f, hf, other, htype,
        Table.contains_of_get? hget, hother, hmap, rfl, hresource⟩⟩
      have hgone : a.resource.properties.get? f.property = none := by
        rw [hresource]
        exact Table.get?_erase.trans (if_pos rfl)
      rw [hsame, hget] at hgone
      cases hgone
    · rw [nest_of_passed name value (property_ne_passthrough hf) hpassed, Prod.mk.injEq,
        hfault] at hnest
      cases hnest.2

/-- A port whose passthrough holds a text. -/
def textSpecs : Resource :=
  ((Resource.new portType).set "port_security_enabled" (.bool true)).set "value_specs" (.string "x")

theorem textSpecs_intact_iff :
    ∃ a fault, CanReturn (textSpecs.adapt Descriptor.oldCatalog "p1" .empty) a
      ∧ a.fault = some fault
      ∧ (a.resource.properties = textSpecs.properties ↔ ∃ e, fault = .service e) := by
  have hfault : (textSpecs.adapt Descriptor.oldCatalog "p1" .empty).fault.isSome = true := by
    decide +kernel
  obtain ⟨fault, hfault⟩ := Option.isSome_iff_exists.1 hfault
  have hreturn : CanReturn (textSpecs.adapt Descriptor.oldCatalog "p1" .empty)
      (textSpecs.adapt Descriptor.oldCatalog "p1" .empty) := rfl
  exact ⟨_, fault, hreturn, hfault, (intact_iff_unanswered hreturn hfault).1⟩

/-- A fault that does not leave the resource as it was. -/
theorem textSpecs_lost :
    (textSpecs.adapt Descriptor.oldCatalog "p1" .empty).fault.isSome = true
      ∧ (textSpecs.adapt Descriptor.oldCatalog "p1" .empty).resource.properties
        ≠ textSpecs.properties := by
  refine ⟨by decide +kernel, fun hsame => ?_⟩
  have hgone : (textSpecs.adapt Descriptor.oldCatalog "p1" .empty).resource.properties.contains
      "port_security_enabled" = false := by
    decide +kernel
  have hhas : textSpecs.properties.contains "port_security_enabled" = true := by
    decide +kernel
  rw [hsame, hhas] at hgone
  cases hgone

/-! ## What is kept when a property is moved -/

/-- What the passthrough of a fallback holds under a name. -/
def passes? (r : Resource) (f : Fallback) (key : String) : Option Property :=
  (r.passed? f).bind (Entries.get? key)

/-- What a resource keeps when the property of a fallback may have been moved. -/
structure Carries (f : Fallback) (r r' : Resource) : Prop where
  type : r'.type = r.type
  others : ∀ key, key ≠ f.property → key ≠ f.passthrough →
    r'.properties.get? key = r.properties.get? key
  moved : r' = r ∨ ∃ value, r.properties.get? f.property = some value
    ∧ r'.properties.get? f.property = none ∧ r'.passes? f f.property = some value
  passed : ∀ key, key ≠ f.property → r'.passes? f key = r.passes? f key
  /-- An entry is lost only if the property has its name and another value. -/
  kept : (∀ key value, r.passes? f key = some value → r'.passes? f key = some value)
    ↔ r' = r ∨ ∀ value, r.passes? f f.property = some value →
      r.properties.get? f.property = some value

variable {f : Fallback} {r r' : Resource}

theorem Carries.refl : Carries f r r where
  type := rfl
  others _ _ _ := rfl
  moved := .inl rfl
  passed _ _ := rfl
  kept := iff_of_true (fun _ _ h => h) (.inl rfl)

theorem passes?_of_passed {es : List (String × Property)} (h : r.passed? f = some es)
    (key : String) : r.passes? f key = Entries.get? key es := by
  rw [passes?, h]
  rfl

theorem passes?_nest {es : List (String × Property)} (name : String) (value : Property)
    (hp : f.property ≠ f.passthrough) (hpassed : r.passed? f = some es) (key : String) :
    (r.nest name f value).1.passes? f key
      = if key = f.property then some value else r.passes? f key := by
  have hget : (r.nest name f value).1.properties.get? f.passthrough
      = some (.map (Entries.put f.property value es)) := by
    rw [nest_of_passed name value hp hpassed]
    exact Table.get?_put.trans (if_pos rfl)
  have hpassed' : (r.nest name f value).1.passed? f
      = some (Entries.put f.property value es) := by
    rw [passed?, hget]
  rw [passes?_of_passed hpassed', passes?_of_passed hpassed, Entries.get?_put]

theorem carries_of_nest (name : String) {value : Property} (hp : f.property ≠ f.passthrough)
    (hvalue : r.properties.get? f.property = some value)
    (hok : (r.nest name f value).2 = none) : Carries f r (r.nest name f value).1 := by
  rcases hpassed : r.passed? f with _ | es
  · obtain ⟨other, -, -, hlost⟩ := nest_of_unpassed name value hp hpassed
    rw [hlost] at hok
    cases hok
  · have hpasses := passes?_nest name value hp hpassed
    have hgone : (r.nest name f value).1.properties.get? f.property = none :=
      get?_property_nest r name value hp
    refine
      { type := type_nest
        others := fun key hkey hkey' => get?_nest hkey hkey'
        moved := .inr ⟨value, hvalue, hgone, by rw [hpasses, if_pos rfl]⟩
        passed := fun key hkey => by rw [hpasses, if_neg hkey]
        kept := ⟨fun hkept => .inr fun old hold => ?_, fun hsame key old hold => ?_⟩ }
    · have hstays := hkept f.property old hold
      rw [hpasses, if_pos rfl] at hstays
      exact hvalue.trans hstays
    · rcases hsame with hsame | hsame
      · rw [hsame, hvalue] at hgone
        cases hgone
      · rw [hpasses]
        split
        · rename_i hkey
          exact hvalue.symm.trans (hsame old (hkey ▸ hold))
        · exact hold

theorem carries_of_adapt {m : Type → Type} [Monad m] [LawfulMonad m] [MonadAttach m]
    [LawfulMonadAttach m] {catalog : Catalog m} {name : String} {memo : SupportMemo} {a : Adapted}
    (hf : f ∈ fallbacks) (h : CanReturn (r.adapt catalog name memo) a) (hok : a.fault = none) :
    Carries f r a.resource := by
  rcases (adaptsTo_of_adapt hf h).intact_or_nested with ⟨hr, -⟩ | ⟨value, hvalue, hnest⟩
  · rw [hr]
    exact .refl
  · have hnested := carries_of_nest name (property_ne_passthrough hf)
      (concern?_eq_some_iff.1 hvalue).2 ((congrArg Prod.snd hnest).symm.trans hok)
    rwa [← hnest] at hnested

end Resource

namespace PortRequest

/-- What a request has the port say of the property of a fallback, unless it is not supported. -/
def said (request : PortRequest) (f : Fallback) : Property :=
  (request.extra.get? f.property).getD (.bool (request.antiSpoofing.getD false))

/-- The port before the further properties: it says whether it is secured, and it has nothing passed
through. -/
def Bare (request : PortRequest) (f : Fallback) (base : Resource) : Prop :=
  base.properties.get? f.property = some (.bool (request.antiSpoofing.getD false))
    ∧ base.properties.get? f.passthrough = none

variable {request : PortRequest} {f : Fallback} {base : Resource} {port : Port}

theorem Bare.set {key : String} {value : Property} (h : request.Bare f base)
    (hk : key ≠ f.property) (hk' : key ≠ f.passthrough) : request.Bare f (base.set key value) :=
  ⟨(Table.get?_put.trans (if_neg hk.symm)).trans h.1,
    (Table.get?_put.trans (if_neg hk'.symm)).trans h.2⟩

theorem bare_of_port (hf : f ∈ fallbacks) (h : request.port = .ok port) :
    ∃ base, request.Bare f base ∧ port.resource.properties
      = base.properties.extend request.extra := by
  obtain rfl := List.mem_singleton.1 hf
  unfold PortRequest.port at h
  extract_lets start bound finish at h
  have hstart : request.Bare ⟨portType, "port_security_enabled", "value_specs"⟩ start :=
    ⟨Table.get?_put.trans (if_pos rfl), rfl⟩
  have hbound : request.Bare ⟨portType, "port_security_enabled", "value_specs"⟩ bound := by
    unfold bound
    split
    · exact hstart.set (by decide) (by decide)
    · exact hstart
  split at h
  · cases h
    exact ⟨bound, hbound, rfl⟩
  · split at h
    · cases h
      exact ⟨_, hbound.set (by decide) (by decide), rfl⟩
    · cases h

/-- What is made of a request: its port, and what the endpoint lets be of it. -/
structure Yields (request : PortRequest) (f : Fallback) (port r : Resource) : Prop where
  carries : Resource.Carries f port r
  said : port.properties.get? f.property = some (request.said f)
  /-- A mapping that the request has passed through arrives, but for an entry that the property
  takes the place of. -/
  passed : ∀ es, request.extra.get? f.passthrough = some (.map es) →
    (∀ key, key ≠ f.property → r.passes? f key = Entries.get? key es)
      ∧ ((∀ key value, Entries.get? key es = some value → r.passes? f key = some value)
        ↔ r = port ∨ ∀ value, Entries.get? f.property es = some value → request.said f = value)

theorem get?_property_port (hf : f ∈ fallbacks) (h : request.port = .ok port) :
    port.resource.properties.get? f.property = some (request.said f) := by
  obtain ⟨base, ⟨hproperty, -⟩, hextend⟩ := bare_of_port hf h
  rw [hextend, Table.get?_extend, hproperty, said]
  rcases request.extra.get? f.property with _ | value
  · rfl
  · rfl

theorem yields_of_carries {r : Resource} (hf : f ∈ fallbacks) (hport : request.port = .ok port)
    (h : Resource.Carries f port.resource r) : request.Yields f port.resource r := by
  obtain ⟨base, ⟨-, hpassthrough⟩, hextend⟩ := bare_of_port hf hport
  have hsaid := get?_property_port hf hport
  refine ⟨h, hsaid, fun es hes => ?_⟩
  have hpassed : port.resource.passed? f = some es := by
    rw [Resource.passed?, hextend, Table.get?_extend, hes, hpassthrough]
    rfl
  have hpasses := Resource.passes?_of_passed hpassed
  have hkept := h.kept
  simp only [hpasses, hsaid, Option.some.injEq] at hkept
  exact ⟨fun key hkey => (h.passed key hkey).trans (hpasses key), hkept⟩

/-- A graph has a port for a request, as the endpoint lets it be. -/
def Installed (request : PortRequest) (g : ResourceGraph) : Prop :=
  ∃ port r, request.port = .ok port ∧ g.resource? request.name = some r
    ∧ ∀ f ∈ fallbacks, request.Yields f port.resource r

theorem Installed.kept {g g' : ResourceGraph} (h : request.Installed g)
    (hkept : ∀ name r, g.resource? name = some r → g'.resource? name = some r) :
    request.Installed g' := by
  obtain ⟨port, r, hport, hr, hyields⟩ := h
  exact ⟨port, r, hport, hkept _ _ hr, hyields⟩

end PortRequest

namespace Compile

/-- The ports of a compute component are in a graph: one for each network requirement, and one for
each of the connection points. -/
structure Plugs (d : Descriptor) (s : Substitution) (name : String) (c : Compute)
    (points : List (String × ConnectionPoint)) (g : ResourceGraph) : Prop where
  requirements : ∀ r ∈ c.networks, ∃ request, requirementPort name s r = .ok request
    ∧ request.Installed g
  points : ∀ p ∈ points, ∃ request, connectionPort d name s p = .ok request
    ∧ request.Installed g

section Plugs

variable {d : Descriptor} {s : Substitution} {name : String} {c : Compute}
variable {points : List (String × ConnectionPoint)} {g g' : ResourceGraph}

theorem Plugs.kept (h : Plugs d s name c points g)
    (hkept : ∀ name r, g.resource? name = some r → g'.resource? name = some r) :
    Plugs d s name c points g' where
  requirements r hr := by
    obtain ⟨request, hrequest, hinstalled⟩ := h.requirements r hr
    exact ⟨request, hrequest, hinstalled.kept hkept⟩
  points p hp := by
    obtain ⟨request, hrequest, hinstalled⟩ := h.points p hp
    exact ⟨request, hrequest, hinstalled.kept hkept⟩

theorem plugs_of_portRequests {requests : List PortRequest}
    (h : portRequests d name c points s = .ok requests)
    (hinstalled : ∀ request ∈ requests, request.Installed g) : Plugs d s name c points g := by
  obtain ⟨inline, hinline, h⟩ := bind_eq_ok_iff.1 h
  obtain ⟨declared, hdeclared, h⟩ := bind_eq_ok_iff.1 h
  dsimp only at h
  split at h
  · cases h
  · cases h
    refine ⟨fun r hr => ?_, fun p hp => ?_⟩
    · obtain ⟨request, hrequest, hr⟩ := ok_of_mapM hinline r hr
      exact ⟨request, hr, hinstalled request (List.mem_append_left _ hrequest)⟩
    · obtain ⟨request, hrequest, hp⟩ := ok_of_mapM hdeclared p hp
      exact ⟨request, hp, hinstalled request (List.mem_append_right _ hrequest)⟩

variable {m : Type → Type} [Monad m] [LawfulMonad m] [MonadAttach m] [LawfulMonadAttach m]
variable {catalog : Catalog m} {settings : CompilerSettings} {memo memo' : SupportMemo}

theorem installed_of_addPorts {requests : List PortRequest}
    (h : CanReturn (addPorts catalog requests g memo) (g', memo')) :
    ∀ request ∈ requests, request.Installed g' := by
  induction requests generalizing g memo with
  | nil => simp
  | cons r rs ih =>
    obtain ⟨port, hport, h⟩ := canReturn_bind_imp' h
    obtain ⟨adapted, hadapted, h⟩ := canReturn_bind_imp' h
    have hport := ok_of_canReturn_liftM hport
    have hadapted := canReturn_of_lift hadapted
    extract_lets g₁ rest at h
    rcases hfault : adapted.fault with _ | fault
    · rw [hfault] at h
      obtain ⟨g₂, hadd, h⟩ := canReturn_bind_imp' h
      obtain ⟨-, hget, -⟩ := of_add (ok_of_canReturn_liftM hadd)
      rw [(of_port hport).1] at hget
      refine List.forall_mem_cons.2 ⟨?_, ih h⟩
      exact ⟨port, adapted.resource, hport, (of_addPorts h).1.kept _ _ hget, fun f hf =>
        PortRequest.yields_of_carries hf hport (Resource.carries_of_adapt hf hadapted hfault)⟩
    · rw [hfault] at h
      obtain ⟨u, hu, -⟩ := canReturn_bind_imp' h
      exact (not_canReturn_throw hu).elim

theorem plugs_of_addCompute
    (h : CanReturn (addCompute settings catalog d points s name c g memo) (g', memo')) :
    Plugs d s name c points g' := by
  obtain ⟨⟨g₁, server₁⟩, -, h⟩ := canReturn_bind_imp' h
  obtain ⟨⟨g₂, server₂⟩, -, h⟩ := canReturn_bind_imp' h
  obtain ⟨server₃, -, h⟩ := canReturn_bind_imp' h
  obtain ⟨requests, hrequests, h⟩ := canReturn_bind_imp' h
  obtain ⟨⟨g₃, memo₃⟩, hports, h⟩ := canReturn_bind_imp' h
  obtain ⟨g₄, hserver, h⟩ := canReturn_bind_imp' h
  cases eq_of_canReturn_pure (m := m) h
  exact (plugs_of_portRequests (ok_of_canReturn_liftM hrequests)
    (installed_of_addPorts hports)).kept (of_add (ok_of_canReturn_liftM hserver)).1.kept

theorem plugs_of_addComputes {points : PointsByCompute} {cs : List (String × Compute)}
    {done done' : Compiled}
    (hpoints : ∀ compute, ((points.get? compute).getD []).Perm (d.points compute))
    (hn : (cs.map Prod.fst).Nodup)
    (h : CanReturn (addComputes settings catalog d points s cs done memo) done') :
    ∀ e ∈ cs, Plugs d s e.1 e.2 ((points.get? e.1).getD []) done'.graph := by
  induction cs generalizing done memo with
  | nil => simp
  | cons e cs ih =>
    obtain ⟨name, c⟩ := e
    rw [List.map_cons, List.nodup_cons] at hn
    obtain ⟨⟨g₁, memo₁⟩, hcompute, h⟩ := canReturn_bind_imp' h
    obtain ⟨monitoring, -, h⟩ := canReturn_bind_imp' h
    refine List.forall_mem_cons.2 ⟨?_, ih hn.2 h⟩
    exact (plugs_of_addCompute hcompute).kept (of_addComputes hpoints hn.2 h).adds.kept

end Plugs

end Compile

/-- What adapting costs a resource without a fault, and what it costs the ports of a descriptor: the
passthrough of a port keeps what the descriptor has it say, but for an entry that the property takes
the place of. -/
theorem Catalog.adapt_carries {m : Type → Type} [Monad m] [LawfulMonad m] [MonadAttach m]
    [LawfulMonadAttach m] (catalog : Catalog m) :
    (∀ name r memo a, CanReturn (r.adapt catalog name memo) a → a.fault = none →
      ∀ f ∈ fallbacks, Resource.Carries f r a.resource)
    ∧ ∀ (d : Descriptor) settings parameters compiled,
      CanReturn (d.compile settings parameters catalog) compiled →
      ∀ name c, d.components.get? name = some (.compute c) →
        Compile.Plugs d ⟨parameters, d.inputs⟩ name c (d.points name) compiled.graph := by
  refine ⟨fun name r memo a h hok f hf => Resource.carries_of_adapt hf h hok,
    fun d settings parameters compiled h name c hc => ?_⟩
  obtain ⟨s, hs, h⟩ := canReturn_bind_imp' h
  obtain ⟨filed, hfiled, h⟩ := canReturn_bind_imp' h
  obtain ⟨done, hdone, h⟩ := canReturn_bind_imp' h
  obtain ⟨g, hg, h⟩ := canReturn_bind_imp' h
  obtain ⟨u, -, h⟩ := canReturn_bind_imp' h
  cases eq_of_canReturn_pure (m := m) h
  obtain rfl := Substitution.eq_of_prepare (ok_of_canReturn_liftM hs)
  have hpoints := (Compile.of_pointsByCompute (ok_of_canReturn_liftM hfiled)).2
  have hplugs := (Compile.plugs_of_addComputes
    (fun compute => hpoints compute ▸ List.mergeSort_perm _ _) (Descriptor.nodup_select _) hdone
    (name, c) (Descriptor.mem_computes.2 hc)).kept
      (Compile.of_addStorages (ok_of_canReturn_liftM hg)).1.kept
  -- In the order of the ports or by name, the connection points are the same.
  refine ⟨hplugs.requirements, fun p hp => hplugs.points p ?_⟩
  rw [hpoints name, List.mem_mergeSort]
  exact hp

namespace Descriptor

/-- A server with a port that is to be secured, as is said only of what is passed through. -/
def securedDescriptor : Descriptor :=
  (Descriptor.named "w").withComponent "VDU1" (.compute
    { Compute.blank with
      networks := [⟨"net0", false, none, Table.empty.put "value_specs"
        (.map [("port_security_enabled", .bool true)])⟩] })

/-- Its port. By default it is not secured. -/
def securedPort : Resource :=
  (((Resource.new portType).set "network" (.string "net0")).set "port_security_enabled"
    (.bool false)).set "value_specs" (.single "port_security_enabled" (.bool true))

/-- Its port where the property is not supported. -/
def overwrittenPort : Resource :=
  ((Resource.new portType).set "network" (.string "net0")).set "value_specs"
    (.single "port_security_enabled" (.bool false))

theorem adapt_securedPort : CanReturn (securedPort.adapt oldCatalog "VDU1-net0-port" .empty)
    ⟨overwrittenPort, Table.empty.put portType .empty, none⟩ := by
  have hrun : securedPort.adapt oldCatalog "VDU1-net0-port" .empty
      = ⟨overwrittenPort, Table.empty.put portType .empty, none⟩ := by with_unfolding_all rfl
  exact hrun

/-- The graph that it is compiled into. -/
def overwrittenGraph : ResourceGraph :=
  { ResourceGraph.empty with
    resources := (Table.empty.put "VDU1" ((Resource.new serverType).set "networks"
      (.list [.single "port" (.resource "VDU1-net0-port")]))).put "VDU1-net0-port" overwrittenPort }

theorem compile_securedDescriptor :
    CanReturn (securedDescriptor.compile .default none oldCatalog) ⟨overwrittenGraph, .empty⟩ := by
  have hrun : (securedDescriptor.compile .default none oldCatalog).run
      = .ok ⟨overwrittenGraph, .empty⟩ := by with_unfolding_all rfl
  exact hrun

theorem secured_carries :
    (∃ a, CanReturn (securedPort.adapt oldCatalog "VDU1-net0-port" .empty) a ∧ a.fault = none
      ∧ ∀ f ∈ fallbacks, Resource.Carries f securedPort a.resource)
    ∧ ∃ compiled, CanReturn (securedDescriptor.compile .default none oldCatalog) compiled
      ∧ ∀ name c, securedDescriptor.components.get? name = some (.compute c) →
        Compile.Plugs securedDescriptor ⟨none, securedDescriptor.inputs⟩ name c
          (securedDescriptor.points name) compiled.graph :=
  ⟨⟨_, adapt_securedPort, rfl, (Catalog.adapt_carries oldCatalog).1 _ _ _ _ adapt_securedPort rfl⟩,
    ⟨_, compile_securedDescriptor,
      (Catalog.adapt_carries oldCatalog).2 _ _ _ _ compile_securedDescriptor⟩⟩

/-- What the descriptor has passed through is lost, and compilation does not fail. -/
theorem secured_overwritten :
    ∃ a compiled, CanReturn (securedPort.adapt oldCatalog "VDU1-net0-port" .empty) a
      ∧ a.fault = none
      ∧ securedPort.properties.get? "value_specs"
        = some (.map [("port_security_enabled", .bool true)])
      ∧ a.resource.properties.get? "value_specs"
        = some (.map [("port_security_enabled", .bool false)])
      ∧ CanReturn (securedDescriptor.compile .default none oldCatalog) compiled
      ∧ compiled.graph.resource? "VDU1-net0-port" = some a.resource :=
  ⟨_, _, adapt_securedPort, rfl, rfl, rfl, compile_securedDescriptor, rfl⟩

end Descriptor

end Provision
