import Provision.Proofs.Substituting

/-!
# Placeholders that compilation leaves

Compilation resolves the leaves of a descriptor, but the tables of leaves are no leaves: the
metadata of a server and the parameters of a monitoring policy are taken over under their names, and
with `get_input` as the only name they read like a placeholder as a whole. So do the actions of a
policy and the extra specs configured for flavors. There is nothing else but what a leaf assembles
where it is resolved into (`compile_substitutes`), and there are these (`placeheld_awaits`).
-/

namespace Provision

open MonadAttach LawfulMonadAttach

section Whole

variable (d : Descriptor) (s : Substitution) (configured : Table String) (name : String)

/-- A leaf that is resolved into the property under a key of the resource assembles a placeholder
for the text. -/
def Descriptor.AssemblesProperty (key text : String) : Prop :=
  ∃ l, d.Feeds name key l ∧ s.Assembles l text

/-- A parameter that monitoring is told of the component under a policy assembles a placeholder for
the text. -/
inductive Descriptor.AssemblesPart (policy : String) : String → String → Prop
  | parameters {c : Compute} {p : MonitoringPolicy} {key text : String} {l : Leaf} :
    d.components.get? name = some (.compute c) → c.monitoringPolicy = some p → p.name = policy →
      p.parameters.get? key = some l → s.Assembles l text →
        AssemblesPart policy "parameters" text

/-- The property under a key of the resource reads like a placeholder for the text as a whole. -/
inductive Descriptor.WholeProperty : String → String → Prop
  | metadata {c : Compute} {text : String} : d.components.get? name = some (.compute c) →
    s.ReadsAs c.metadata text → WholeProperty "metadata" text
  | extraSpecs {text : String} : configured.get? Leaf.inputKey = some text →
    WholeProperty "extra_specs" text

/-- A part of what monitoring is told of the component under a policy reads like a placeholder for
the text as a whole. -/
inductive Descriptor.WholePart (policy : String) : String → String → Prop
  | parameters {c : Compute} {p : MonitoringPolicy} {text : String} :
    d.components.get? name = some (.compute c) → c.monitoringPolicy = some p → p.name = policy →
      s.ReadsAs p.parameters text → WholePart policy "parameters" text
  | actions {c : Compute} {p : MonitoringPolicy} {text : String} :
    d.components.get? name = some (.compute c) → c.monitoringPolicy = some p → p.name = policy →
      p.actions.entries = [(Leaf.inputKey, text)] → WholePart policy "actions" text

end Whole

/-! ## Resources -/

section Resources

variable {d : Descriptor} {s : Substitution} {configured : Table String}
variable {name type key text : String} {p : Property}

theorem Compile.not_awaits_networks {requests : List PortRequest} :
    ¬(Compile.networks requests).toValue.Awaits text := by
  intro h
  obtain ⟨x, hx, hawaits⟩ := Property.awaits_list h
  obtain ⟨r, -, rfl⟩ := List.mem_map.1 hx
  exact Property.not_awaits_resource (Property.awaits_single (by decide) hawaits)

theorem Descriptor.not_wholeProperty_of_fallback {f : Fallback} (hf : f ∈ fallbacks)
    (hkey : key = f.property ∨ key = f.passthrough) :
    ¬d.WholeProperty s configured name key text := by
  rintro (_ | _)
  · exact (ne_of_fallback hf hkey).1 rfl
  · exact (ne_of_fallback hf hkey).2 rfl

/-- What is passed on is assembled where it is passed on to as well. -/
theorem Descriptor.AssemblesProperty.passed {f : Fallback} (hf : f ∈ fallbacks)
    (h : d.AssemblesProperty s name f.property text) :
    d.AssemblesProperty s name f.passthrough text := by
  obtain ⟨l, hl, hassembles⟩ := h
  exact ⟨l, .passed hf hl, hassembles⟩

/-- In a property only assembled placeholders stand, unless it reads like one as a whole. -/
theorem Origin.awaits (hs : s.Plain) (hd : ∀ l, d.Holds l → l.IsRead)
    (h : Origin d s configured name type key p) (hawaits : p.toValue.Awaits text) :
    d.AssemblesProperty s name key text ∨ (p.toValue = .single Leaf.inputKey (.string text)
      ∧ d.WholeProperty s configured name key text) := by
  have hassembles : ∀ {key l v}, d.Feeds name key l → s.resolve l = .ok v → v.Awaits text →
      d.AssemblesProperty s name key text := by
    intro key l v hl hv hawaits
    obtain ⟨w, rfl⟩ := hd l hl.holds
    exact ⟨_, hl, Substitution.assembles_of_awaits hs hv hawaits⟩
  induction h with
  | bool | int | string =>
    simpa [Property.toValue] using hawaits.nested
  | resource => exact absurd hawaits Property.not_awaits_resource
  | said h =>
    obtain ⟨l, v, hl, hv, rfl⟩ := h
    exact .inl (hassembles hl hv (Property.awaits_of_ofValue hawaits))
  | @metadata c t htype hc ht =>
    have hread : ∀ key l, c.metadata.get? key = some l → l.IsRead :=
      fun key l hl => hd l (Descriptor.Feeds.compute hc (.metadata hl)).holds
    rcases Property.awaits_map.1 hawaits with hsingle | ⟨e, he, hawaits⟩
    · refine .inr ⟨congrArg Value.object hsingle, .metadata hc ?_⟩
      exact Substitution.readsAs_of_resolveTable ht (Property.entries_of_again hsingle)
    · obtain ⟨m, hm, rfl⟩ := List.mem_map.1 he
      obtain ⟨key, l, hl, hl'⟩ := Substitution.assembles_of_resolveTable hs hread ht hm
        (Property.awaits_of_ofValue hawaits)
      exact .inl ⟨l, .compute hc (.metadata hl), hl'⟩
  | extraSpecs htype hspecs =>
    rcases Property.awaits_map.1 hawaits with hsingle | ⟨e, he, hawaits⟩
    · refine .inr ⟨congrArg Value.object hsingle, .extraSpecs ?_⟩
      exact of_extend_specs (Capabilities.unnamed_extraSpecs hspecs) hsingle
    · obtain ⟨m, -, rfl⟩ := List.mem_map.1 he
      exact absurd hawaits Value.not_awaits_string
  | networks requests => exact absurd hawaits Compile.not_awaits_networks
  | addresses hl hresolve =>
    obtain ⟨x, hx, hawaits⟩ := Property.awaits_list hawaits
    obtain ⟨a, ha, rfl⟩ := List.mem_map.1 hx
    have ha' := Property.awaits_of_ofValue (Property.awaits_single (by decide) hawaits)
    exact .inl (hassembles hl hresolve (.item ha ha'))
  | passed hf _ ih =>
    have hne : ∀ f ∈ fallbacks, f.property ≠ Leaf.inputKey := by decide
    rcases ih (Property.awaits_single (hne _ hf) hawaits) with hdone | ⟨-, hwhole⟩
    · exact .inl (hdone.passed hf)
    · exact absurd hwhole (Descriptor.not_wholeProperty_of_fallback hf (.inl rfl))
  | @joined f p es hf _ _ ih ihmap =>
    have hne : ∀ f ∈ fallbacks, f.property ≠ Leaf.inputKey := by decide
    rcases Property.awaits_map.1 hawaits with hsingle | ⟨e, he, hawaits⟩
    · have hmem : (f.property, p.toValue) ∈ Property.toMembers (Entries.put f.property p es) := by
        rw [Property.toMembers_eq_map]
        exact List.mem_map_of_mem Entries.mem_put_self
      rw [hsingle] at hmem
      exact absurd (congrArg Prod.fst (List.mem_singleton.1 hmem)) (hne f hf)
    · rcases Entries.of_mem_put he with rfl | he
      · rcases ih hawaits with hdone | ⟨-, hwhole⟩
        · exact .inl (hdone.passed hf)
        · exact absurd hwhole (Descriptor.not_wholeProperty_of_fallback hf (.inl rfl))
      · rcases ihmap (Property.awaits_map.2 (.inr ⟨e, he, hawaits⟩)) with hdone | ⟨-, hwhole⟩
        · exact .inl hdone
        · exact absurd hwhole (Descriptor.not_wholeProperty_of_fallback hf (.inr rfl))

/-- The properties of a resource do not together read like a placeholder. -/
theorem Resource.Traced.properties_ne {r : Resource} (h : r.Traced d s configured name)
    {w : Value} : (r.properties.map fun _ p => p.toValue).entries ≠ [(Leaf.inputKey, w)] := by
  intro hentries
  have hget : ∀ key, ((r.properties.get? key).map Property.toValue)
      = Entries.get? key [(Leaf.inputKey, w)] := by
    intro key
    rw [← hentries]
    exact (Table.get?_map fun _ (p : Property) => p.toValue).symm
  have hnamed : r.properties.contains Leaf.inputKey = true := by
    rw [Table.contains, ← Option.isSome_map, hget]
    rfl
  -- What has the name of placeholders in it has a network beside it.
  rcases h.named _ hnamed with hown | hnetwork
  · exact absurd hown (by decide)
  · rw [Table.contains, ← Option.isSome_map, hget] at hnetwork
    cases hnetwork

theorem Resource.Traced.awaits {r : Resource} (h : r.Traced d s configured name)
    (hawaits : r.toTemplate.Awaits text) :
    ∃ key p, r.properties.get? key = some p ∧ p.toValue.Awaits text := by
  unfold Resource.toTemplate at hawaits
  split at hawaits
  · exact absurd ((Value.awaits_single (by decide)).1 hawaits) Value.not_awaits_string
  · rcases Value.awaits_object.1 hawaits with hsingle | ⟨m, hm, hawaits⟩
    · simp at hsingle
    · rcases List.mem_cons.1 hm with rfl | hm
      · rcases Value.awaits_ofTable.1 hawaits with hentries | ⟨key, v, hv, hawaits⟩
        · exact absurd hentries h.properties_ne
        · rw [Table.get?_map] at hv
          obtain ⟨p, hp, rfl⟩ := Option.map_eq_some_iff.1 hv
          exact ⟨key, p, hp, hawaits⟩
      · obtain rfl := List.mem_singleton.1 hm
        exact absurd hawaits Value.not_awaits_string

theorem Resource.toTemplate_ne_string {r : Resource} {t : String} : r.toTemplate ≠ .string t := by
  unfold Resource.toTemplate
  split
  · nofun
  · nofun

theorem ResourceGraph.Traced.awaits {g : ResourceGraph} (h : g.Traced d s configured) {v : Value}
    (hv : g.toTemplate.member? "resources" = some v) (hawaits : v.Awaits text) :
    ∃ name key p, g.toTemplate.path? ["resources", name, "properties", key] = some p
      ∧ p.Awaits text := by
  rw [toTemplate_resources] at hv
  obtain rfl := Option.some.inj hv
  rcases Value.awaits_ofTable.1 hawaits with hentries | ⟨name, v, hv, hawaits⟩
  · have hmem := Table.mem_entries.1 (hentries ▸ List.mem_singleton_self _)
    rw [Table.get?_map] at hmem
    obtain ⟨r, -, hr⟩ := Option.map_eq_some_iff.1 hmem
    exact absurd hr Resource.toTemplate_ne_string
  · rw [Table.get?_map] at hv
    obtain ⟨r, hr, rfl⟩ := Option.map_eq_some_iff.1 hv
    obtain ⟨key, p, hp, hawaits⟩ := (h name r hr).awaits hawaits
    refine ⟨name, key, p.toValue, ?_, hawaits⟩
    rw [toTemplate_path? hr, Resource.toTemplate_property hp]

theorem ResourceGraph.property?_of_path? {g : ResourceGraph} {v : Value}
    (h : g.toTemplate.path? ["resources", name, "properties", key] = some v) :
    ∃ r p, g.resource? name = some r ∧ r.properties.get? key = some p ∧ p.toValue = v := by
  obtain ⟨r, hr, h⟩ := resource?_of_path? h
  rw [Value.path?_cons] at h
  obtain ⟨properties, hproperties, h⟩ := Option.bind_eq_some_iff.1 h
  obtain rfl := Resource.toTemplate_properties hproperties
  rw [Value.path?_cons] at h
  obtain ⟨w, hw, h⟩ := Option.bind_eq_some_iff.1 h
  obtain rfl := Option.some.inj h
  change (r.properties.map fun _ p => p.toValue).get? key = some w at hw
  rw [Table.get?_map] at hw
  obtain ⟨p, hp, rfl⟩ := Option.map_eq_some_iff.1 hw
  exact ⟨r, p, hr, hp, rfl⟩

end Resources

/-! ## Monitoring -/

section Monitoring

variable {d : Descriptor} {s : Substitution} {monitoring : Monitoring} {text : String}

theorem Monitoring.path?_eq_some_iff {component policy part : String} {v : Value} :
    monitoring.toValue.path? [component, policy, part] = some v ↔
      ∃ policies body, monitoring.get? component = some policies
        ∧ policies.get? policy = some body ∧ body.member? part = some v := by
  have hmember : ∀ {α : Type} (f : α → Value) (t : Table α) (key : String),
      (Value.ofTable (t.map fun _ a => f a)).member? key = (t.get? key).map f :=
    fun f t key => Table.get?_map fun _ a => f a
  simp only [Value.path?_cons, Option.bind_eq_some_iff]
  constructor
  · rintro ⟨v₁, hv₁, v₂, hv₂, v₃, hv₃, hv⟩
    obtain ⟨policies, hpolicies, rfl⟩ :=
      Option.map_eq_some_iff.1 ((hmember Value.ofTable monitoring component).symm.trans hv₁)
    exact ⟨policies, v₂, hpolicies, hv₂, hv₃.trans hv⟩
  · rintro ⟨policies, body, hpolicies, hbody, hv⟩
    refine ⟨.ofTable policies, ?_, body, hbody, v, hv, rfl⟩
    exact (hmember Value.ofTable monitoring component).trans (congrArg _ hpolicies)

theorem Monitoring.Traced.awaits (h : monitoring.Traced d s)
    (hawaits : monitoring.toValue.Awaits text) : ∃ component policy part v,
      monitoring.toValue.path? [component, policy, part] = some v ∧ v.Awaits text := by
  rcases Value.awaits_ofTable.1 hawaits with hentries | ⟨component, v, hv, hawaits⟩
  · have hmem := Table.mem_entries.1 (hentries ▸ List.mem_singleton_self _)
    rw [Table.get?_map] at hmem
    obtain ⟨policies, -, hpolicies⟩ := Option.map_eq_some_iff.1 hmem
    cases hpolicies
  rw [Table.get?_map] at hv
  obtain ⟨policies, hpolicies, rfl⟩ := Option.map_eq_some_iff.1 hv
  rcases Value.awaits_ofTable.1 hawaits with hentries | ⟨policy, body, hbody, hawaits⟩
  · have hbody := Table.mem_entries.1 (hentries ▸ List.mem_singleton_self _)
    obtain ⟨_, _, _, _, _, _, _, heq⟩ := h _ _ _ _ hpolicies hbody
    cases heq
  obtain ⟨c, p, t, hc, hp, hname, ht, rfl⟩ := h _ _ _ _ hpolicies hbody
  rcases Value.awaits_object.1 hawaits with hsingle | ⟨m, hm, hawaits⟩
  · simp at hsingle
  · refine ⟨component, policy, m.1, m.2, ?_, hawaits⟩
    refine Monitoring.path?_eq_some_iff.2 ⟨policies, _, hpolicies, hbody, ?_⟩
    rcases List.mem_cons.1 hm with rfl | hm
    · rfl
    · obtain rfl := List.mem_singleton.1 hm
      rfl

theorem Monitoring.Traced.part (hs : s.Plain) (hd : ∀ l, d.Holds l → l.IsRead)
    (h : monitoring.Traced d s) {component policy part : String} {v : Value}
    (hv : monitoring.toValue.path? [component, policy, part] = some v) (hawaits : v.Awaits text) :
    d.AssemblesPart s component policy part text ∨ (v = .single Leaf.inputKey (.string text)
      ∧ d.WholePart s component policy part text) := by
  obtain ⟨policies, body, hpolicies, hbody, hv⟩ := Monitoring.path?_eq_some_iff.1 hv
  obtain ⟨c, p, t, hc, hp, hname, ht, rfl⟩ := h _ _ _ _ hpolicies hbody
  have hread : ∀ key l, p.parameters.get? key = some l → l.IsRead :=
    fun key l hl => hd l ⟨_, _, hc, .compute (.monitoring hp hl)⟩
  have hmem := Entries.mem_of_get? hv
  rcases List.mem_cons.1 hmem with heq | hmem
  · cases heq
    rcases Value.awaits_ofTable.1 hawaits with hsingle | ⟨key, v, hv, hawaits⟩
    · refine .inr ⟨congrArg Value.object hsingle, .actions hc hp hname ?_⟩
      obtain ⟨⟨key, action⟩, hentries, heq⟩ := List.map_eq_singleton_iff.1 hsingle
      cases heq
      exact hentries
    · rw [Table.get?_map] at hv
      obtain ⟨action, -, rfl⟩ := Option.map_eq_some_iff.1 hv
      exact absurd hawaits Value.not_awaits_string
  · cases List.mem_singleton.1 hmem
    rcases Value.awaits_object.1 hawaits with hsingle | ⟨m, hm, hawaits⟩
    · refine .inr ⟨congrArg Value.object hsingle, .parameters hc hp hname ?_⟩
      exact Substitution.readsAs_of_resolveTable ht hsingle
    · obtain ⟨key, l, hl, hassembles⟩ :=
        Substitution.assembles_of_resolveTable hs hread ht hm hawaits
      exact .inl (.parameters hc hp hname hl hassembles)

end Monitoring

namespace Descriptor

variable {d : Descriptor}

/-- The objects that read like placeholders in what a descriptor is compiled into: they stand in the
properties of resources and in the parts of what monitoring is told, and are assembled by a leaf
that is resolved into this very property or part, unless the property or the part reads like a
placeholder as a whole. -/
structure Substitutes (d : Descriptor) (s : Substitution) (configured : Table String)
    (compiled : Compiled) : Prop where
  resources : ∀ v text, compiled.graph.toTemplate.member? "resources" = some v → v.Awaits text →
    ∃ name key p, compiled.graph.toTemplate.path? ["resources", name, "properties", key] = some p
      ∧ p.Awaits text
  property : ∀ name key p text,
    compiled.graph.toTemplate.path? ["resources", name, "properties", key] = some p →
    p.Awaits text → d.AssemblesProperty s name key text
      ∨ (p = .single Leaf.inputKey (.string text) ∧ d.WholeProperty s configured name key text)
  monitoring : ∀ text, compiled.monitoring.toValue.Awaits text → ∃ component policy part v,
    compiled.monitoring.toValue.path? [component, policy, part] = some v ∧ v.Awaits text
  part : ∀ component policy part v text,
    compiled.monitoring.toValue.path? [component, policy, part] = some v → v.Awaits text →
    d.AssemblesPart s component policy part text
      ∨ (v = .single Leaf.inputKey (.string text) ∧ d.WholePart s component policy part text)

theorem plain_of_values {parameters : Option Parameters}
    (hparameters : ∀ table name v, parameters = some table → table.get? name = some v →
      ∀ input, ¬v.Awaits input)
    (hinputs : ∀ name decl v, d.inputs.get? name = some decl → decl.default? = some v →
      ∀ input, ¬v.Awaits input) : Substitution.Plain ⟨parameters, d.inputs⟩ := by
  intro name v h
  unfold Substitution.lookup at h
  split at h
  · rename_i w hw
    obtain ⟨table, htable, hget⟩ := Option.bind_eq_some_iff.1 hw
    cases h
    exact hparameters table name v htable hget
  · split at h
    · rename_i w hw
      obtain ⟨decl, hdecl, hdefault⟩ := Option.bind_eq_some_iff.1 hw
      cases h
      exact hinputs name decl v hdecl hdefault
    · cases h

/-- No placeholder survives compilation, but for what reads like one as a whole and for names of
inputs that are themselves inputs. -/
theorem compile_substitutes {m : Type → Type} [Monad m] [LawfulMonad m] [MonadAttach m]
    [LawfulMonadAttach m] {n : Node} {settings : CompilerSettings} {parameters : Option Parameters}
    {catalog : Catalog m} {compiled : Compiled} (hd : ofNode? n = some d)
    (hparameters : ∀ table name v, parameters = some table → table.get? name = some v →
      ∀ input, ¬v.Awaits input)
    (hinputs : ∀ name decl v, d.inputs.get? name = some decl → decl.default? = some v →
      ∀ input, ¬v.Awaits input)
    (h : CanReturn (d.compile settings parameters catalog) compiled) :
    d.Substitutes ⟨parameters, d.inputs⟩ settings.flavorExtraSpecs compiled := by
  have hs := plain_of_values hparameters hinputs
  have hread := read_of_ofNode? hd
  obtain ⟨hgraph, hmonitoring⟩ := traced_of_compile h
  refine
    { resources := fun v text hv => hgraph.awaits hv
      property := fun name key p text hp hawaits => ?_
      monitoring := fun text => hmonitoring.awaits
      part := fun component policy part v text => hmonitoring.part hs hread }
  obtain ⟨r, q, hr, hq, rfl⟩ := ResourceGraph.property?_of_path? hp
  exact ((hgraph name r hr).origin key q hq).awaits hs hread hawaits

/-- A server whose image is an input, and whose metadata as a whole read like the same input. -/
def placeheld : Value :=
  .object
    [("components", .object
        [("VDU1", .object
            [("image", .single "get_input" (.string "image")), ("kind", .string "compute"),
             ("metadata", .single "get_input" (.string "image"))])]),
     ("name", .string "w")]

/-- What it is read as: the metadata are a table of leaves, so that they are none. -/
def placeheldDescriptor : Descriptor :=
  (Descriptor.named "w").withComponent "VDU1" (.compute
    { Compute.blank with
      image := some (.input "image")
      metadata := Table.empty.put "get_input" (.string "image") })

/-- An image, for the input of that name. -/
def imageParameters : Parameters := Table.empty.put "image" (.string "cirros")

theorem imageParameters_plain (table : Parameters) (name : String) (v : Value)
    (htable : some imageParameters = some table) (hv : table.get? name = some v) (input : String) :
    ¬v.Awaits input := by
  cases htable
  rw [imageParameters, Table.get?_put] at hv
  split_ifs at hv
  · cases hv
    exact Value.not_awaits_string
  · cases hv

theorem placeheld_inputs_plain (name : String) (decl : InputDecl) (v : Value)
    (hdecl : placeheldDescriptor.inputs.get? name = some decl) (_ : decl.default? = some v)
    (input : String) : ¬v.Awaits input := by
  cases hdecl

/-- The graph that it is compiled into. -/
def placeheldGraph : ResourceGraph :=
  { ResourceGraph.empty with
    resources := Table.empty.put "VDU1" (((Resource.new serverType).set "image"
      (.string "cirros")).set "metadata" (.single "get_input" (.string "image"))) }

theorem placeheld_compiles : ofValue? placeheld = some placeheldDescriptor
    ∧ CanReturn (placeheldDescriptor.compile .default (some imageParameters) oldCatalog)
      ⟨placeheldGraph, .empty⟩ := by
  refine ⟨by with_unfolding_all rfl, ?_⟩
  have hrun : (placeheldDescriptor.compile .default (some imageParameters) oldCatalog).run
      = .ok ⟨placeheldGraph, .empty⟩ := by with_unfolding_all rfl
  exact hrun

theorem placeheld_substitutes :
    ofValue? placeheld = some placeheldDescriptor ∧ ∃ compiled,
      CanReturn (placeheldDescriptor.compile .default (some imageParameters) oldCatalog) compiled
        ∧ placeheldDescriptor.Substitutes ⟨some imageParameters, placeheldDescriptor.inputs⟩ .empty
          compiled := by
  obtain ⟨hread, hcompile⟩ := placeheld_compiles
  exact ⟨hread, _, hcompile, compile_substitutes hread imageParameters_plain placeheld_inputs_plain
    hcompile⟩

/-- No parameter and no default has a placeholder in it, and one is left. -/
theorem placeheld_awaits :
    (∀ table name v, some imageParameters = some table → table.get? name = some v →
      ∀ input, ¬v.Awaits input)
    ∧ (∀ name decl v, placeheldDescriptor.inputs.get? name = some decl → decl.default? = some v →
      ∀ input, ¬v.Awaits input)
    ∧ ofValue? placeheld = some placeheldDescriptor ∧ ∃ compiled resources,
      CanReturn (placeheldDescriptor.compile .default (some imageParameters) oldCatalog) compiled
        ∧ compiled.graph.toTemplate.member? "resources" = some resources
        ∧ resources.Awaits "image" := by
  obtain ⟨hread, hcompile⟩ := placeheld_compiles
  refine ⟨imageParameters_plain, placeheld_inputs_plain, hread, _, _, hcompile,
    ResourceGraph.toTemplate_resources, ?_⟩
  refine Value.awaits_ofTable.2 (.inr ⟨"VDU1", _, rfl, ?_⟩)
  refine .member List.mem_cons_self (.member (m := ("metadata", _)) ?_ (.here "image"))
  exact List.mem_cons_of_mem _ List.mem_cons_self

end Descriptor

end Provision
