import Provision.Proofs.Templates
import Provision.Proofs.Creation

/-!
# Management addresses stay discoverable

A server and the port it is managed through refer to each other, so they end up in the same template
of a plan, and the output that reads the address of the port with them. No template declares any
other output, and the name of an output gives back the component it is for. So what a stack reports
of a template's outputs comes to one address for each of them (`plan_discoverable`).
-/

namespace Provision

open MonadAttach LawfulMonadAttach

theorem managed?_managementOutput (name : String) : managed? (managementOutput name) = some name :=
  Rehearsal.managed?_eq_some_iff.2 rfl

/-- If every output of a stack is the address of a component of its own, they are all told, each
under its component. -/
theorem managementOutputs_perm {stack : DeployedStack}
    (hn : (stack.outputs.map StackOutput.key).Nodup)
    (hmanaged : ∀ o ∈ stack.outputs, ∃ name, o.key = managementOutput name) :
    (stack.managementOutputs.entries.map fun e => (managementOutput e.1, e.2)).Perm
      (stack.outputs.map fun o => (o.key, o.value)) := by
  set es := stack.outputs.filterMap fun o =>
    (managed? o.key).map fun component => (component, o.value) with hes
  have hmap : es.map (fun e => (managementOutput e.1, e.2))
      = stack.outputs.map fun o => (o.key, o.value) := by
    rw [hes, List.map_filterMap, ← List.filterMap_eq_map']
    refine List.filterMap_congr fun o ho => ?_
    obtain ⟨name, hname⟩ := hmanaged o ho
    rw [hname, managed?_managementOutput]
    rfl
  have hnames : (Entries.names es).Nodup := by
    refine List.Nodup.of_map managementOutput ?_
    have hkeys := congrArg (List.map Prod.fst) hmap
    rw [List.map_map, List.map_map] at hkeys
    rw [List.map_map]
    exact hkeys ▸ hn
  rw [← hmap]
  exact (Entries.ofList_perm hnames).map _

namespace Descriptor

/-- Where the address of a managed component is found: one template declares the output for it,
which is the one with the server, and the output starts from the port there. -/
structure ManagedAt (d : Descriptor) (g : ResourceGraph) (name : String) (c : Compute)
    (place : Option String) (t : ResourceGraph) (port : String) : Prop where
  template : g.template? place = some t
  ports : d.managementPorts name c = [port]
  output : ∃ o, t.outputs.get? (managementOutput name) = some o ∧ o.resource = port
  source : ∃ r, t.resource? port = some r ∧ r.type = portType
  server : ∃ r, t.resource? name = some r ∧ r.type = serverType ∧ port ∈ r.networkReferences
  declaredOnce : ∀ place' t', g.template? place' = some t' →
    t'.outputs.contains (managementOutput name) → place' = place
  serverOnce : ∀ place' t' r, g.template? place' = some t' → t'.resource? name = some r →
    r.type = serverType → place' = place

/-- Every managed component is found, every output is one component's, and a stack that reports the
outputs of a template tells one address for each. -/
structure Discoverable (d : Descriptor) (g : ResourceGraph) : Prop where
  managed : ∀ name c, d.components.get? name = some (.compute c) →
    d.managementPorts name c ≠ [] → ∃ place t port, d.ManagedAt g name c place t port
  declared : ∀ place t k, g.template? place = some t → t.outputs.contains k →
    ∃ name c, d.components.get? name = some (.compute c) ∧ d.managementPorts name c ≠ []
      ∧ k = managementOutput name ∧ managed? k = some name
  nested : ∀ inner : ResourceGraph, inner.NestedIn g → ∃ place, g.template? place = some inner
  reported : ∀ place t (stack : DeployedStack), g.template? place = some t →
    (stack.outputs.map StackOutput.key).Perm t.outputs.names →
      (stack.managementOutputs.entries.map fun e => (managementOutput e.1, e.2)).Perm
        (stack.outputs.map fun o => (o.key, o.value))

section Housed

variable {d : Descriptor} {g planned : ResourceGraph} {home : String → Option String}
variable {name k : String} {c : Compute} {o : Output}

theorem mem_ownOutputs (h : (k, o) ∈ d.ownOutputs name c) :
    k = managementOutput name ∧ o.resource ∈ d.managementPorts name c := by
  obtain ⟨port, hport, heq⟩ := List.mem_map.1 h
  cases heq
  exact ⟨rfl, hport⟩

theorem portNames_of_managementPorts {port : String} (h : port ∈ d.managementPorts name c) :
    port ∈ d.portNames name c := by
  obtain ⟨own, hown, rfl⟩ := List.mem_map.1 h
  exact List.mem_map_of_mem (List.mem_of_mem_filter hown)

theorem refersTo_of_networkReferences {r : Resource} {port : String}
    (h : port ∈ r.networkReferences) : r.RefersTo port := by
  unfold Resource.networkReferences at h
  rcases hp : r.properties.get? "networks" with _ | p
  · rw [hp] at h
    cases h
  · rw [hp] at h
    exact ⟨"networks", p, hp, Property.mem_referenceList.1 h⟩

theorem CompilesTo.mem_outputs (h : d.CompilesTo g) (ho : g.outputs.get? k = some o) :
    ∃ name c, d.components.get? name = some (.compute c) ∧ k = managementOutput name
      ∧ o.resource ∈ d.managementPorts name c := by
  obtain ⟨⟨name, c⟩, he, ho⟩ := List.mem_flatMap.1 (h.outputs.mem_iff.1 (Table.mem_entries.2 ho))
  exact ⟨name, c, mem_computes.1 he, mem_ownOutputs ho⟩

theorem CompilesTo.output_of_managed (h : d.CompilesTo g) {port : String}
    (hc : d.components.get? name = some (.compute c)) (hm : d.managementPorts name c = [port]) :
    ∃ o, g.outputs.get? (managementOutput name) = some o ∧ o.resource = port := by
  have hown : (PortRequest.new port name port).output ∈ d.ownOutputs name c := by
    rw [ownOutputs, hm]
    exact List.mem_singleton_self _
  refine ⟨(PortRequest.new port name port).output.2, Table.mem_entries.1 ?_, rfl⟩
  exact h.outputs.mem_iff.2 (List.mem_flatMap.2 ⟨(name, c), mem_computes.2 hc, hown⟩)

theorem CompilesTo.managementPorts_eq (h : d.CompilesTo g)
    (hc : d.components.get? name = some (.compute c)) (hm : d.managementPorts name c ≠ []) :
    ∃ port, d.managementPorts name c = [port] := by
  have hfew := h.few name c hc
  rcases hports : d.managementPorts name c with _ | ⟨port, _ | ⟨port', ports⟩⟩
  · exact absurd hports hm
  · exact ⟨port, rfl⟩
  · rw [hports] at hfew
    simp at hfew

theorem CompilesTo.port_type (h : d.CompilesTo g) {port : String}
    (hc : d.components.get? name = some (.compute c)) (hport : port ∈ d.portNames name c) :
    ∃ r, g.resource? port = some r ∧ r.type = portType := by
  refine ResourceGraph.mem_typed.1 (h.resources.mem_iff.2 (List.mem_append_left _ ?_))
  refine List.mem_flatMap.2 ⟨(name, c), mem_computes.2 hc, List.mem_cons_of_mem _ ?_⟩
  exact List.mem_append_right _ (List.mem_append_right _ (List.mem_map_of_mem hport))

theorem managedAt_of_housed (hg : d.CompilesTo g) (h : ResourceGraph.Housed g planned home)
    (hc : d.components.get? name = some (.compute c)) (hm : d.managementPorts name c ≠ []) :
    ∃ place t port, d.ManagedAt planned name c place t port := by
  obtain ⟨port, hport⟩ := hg.managementPorts_eq hc hm
  have hown : port ∈ d.portNames name c :=
    portNames_of_managementPorts (hport ▸ List.mem_singleton_self port)
  obtain ⟨server, hserver, htype, hrefs⟩ := hg.servers name c hc
  obtain ⟨r, hr, hrtype⟩ := hg.port_type hc hown
  have hedge : g.Edge name port :=
    ⟨server, hserver, refersTo_of_networkReferences (hrefs.mem_iff.2 hown)⟩
  have hhome : home name = home port := h.references name port hedge
  obtain ⟨o, ho, hsource⟩ := hg.output_of_managed hc hport
  obtain ⟨t, server', ht, hserver', htype', hrefs'⟩ := h.resources name server hserver
  obtain ⟨t₂, r', ht₂, hr', hrtype', -⟩ := h.resources port r hr
  have hsame : t₂ = t := by
    rw [← hhome, ht] at ht₂
    exact (Option.some.inj ht₂).symm
  subst hsame
  have hdeclared : t₂.outputs.get? (managementOutput name) = some o :=
    (h.outputs _ _ ht _ o).2 ⟨ho, hsource ▸ hhome.symm⟩
  refine ⟨home name, t₂, port,
    { template := ht
      ports := hport
      output := ⟨o, hdeclared, hsource⟩
      source := ⟨r', hr', hrtype'.trans hrtype⟩
      server := ⟨server', hserver', htype'.trans htype, ?_⟩
      declaredOnce := fun place' t' ht' hk => ?_
      serverOnce := fun place' t' r ht' hr htype => ?_ }⟩
  · rw [hrefs']
    exact hrefs.mem_iff.2 hown
  · obtain ⟨o', ho'⟩ := Table.contains_iff.1 hk
    obtain ⟨ho', hplace⟩ := (h.outputs _ _ ht' _ o').1 ho'
    rw [ho] at ho'
    cases ho'
    rw [← hplace, hsource, hhome]
  · exact (h.servers place' t' name r ht' hr htype).symm

end Housed

/-- Whatever plan comes out, its management addresses are discoverable. -/
theorem plan_discoverable {m : Type → Type} [Monad m] [LawfulMonad m] [MonadAttach m]
    [LawfulMonadAttach m] {d : Descriptor} {settings : CompilerSettings}
    {parameters : Option Parameters} {catalog : Catalog m} {workloadId : String} {plan : Plan}
    (h : CanReturn (d.plan settings parameters catalog workloadId) plan) :
    d.Discoverable plan.graph := by
  obtain ⟨g, home, hg, hhoused⟩ := housed_of_plan h
  have hdeclared : ∀ place t k, plan.graph.template? place = some t → t.outputs.contains k →
      ∃ name c, d.components.get? name = some (.compute c) ∧ d.managementPorts name c ≠ []
        ∧ k = managementOutput name ∧ managed? k = some name := by
    intro place t k ht hk
    obtain ⟨o, ho⟩ := Table.contains_iff.1 hk
    obtain ⟨name, c, hc, rfl, hport⟩ := hg.mem_outputs ((hhoused.outputs place t ht k o).1 ho).1
    exact ⟨name, c, hc, List.ne_nil_of_mem hport, rfl, managed?_managementOutput name⟩
  refine
    { managed := fun name c hc hm => managedAt_of_housed hg hhoused hc hm
      declared := hdeclared
      nested := fun inner hin => hhoused.template_of_nestedIn hin
      reported := fun place t stack ht hkeys => ?_ }
  refine managementOutputs_perm (hkeys.nodup_iff.2 ?_) fun o ho => ?_
  · exact t.outputs.ascending.imp String.ne_of_lt
  · have hk : o.key ∈ t.outputs.names := hkeys.mem_iff.1 (List.mem_map_of_mem ho)
    obtain ⟨name, c, -, -, hname, -⟩ := hdeclared place t o.key ht (Table.mem_names.1 hk)
    exact ⟨name, hname⟩

theorem scaledStore_discoverable :
    ∃ plan, CanReturn (scaledStore.plan .default none oldCatalog "w") plan
      ∧ scaledStore.Discoverable plan.graph := by
  obtain ⟨plan, hplan⟩ := scaledStore_plan
  exact ⟨plan, hplan, plan_discoverable hplan⟩

end Descriptor

end Provision
