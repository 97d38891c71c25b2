import Provision.Graph
import Provision.Proofs.Tables
import Provision.Proofs.Cycles

/-!
# Validation passes the coherent graphs and no others

A property value refers to a resource if a reference to it stands anywhere inside. A graph is
coherent if whatever is referred to, and whatever an output starts from, is a resource of that same
graph, and no chain of references comes back to where it began. A graph passes if it and all graphs
nested in it, however deep, are coherent (`validate_eq_ok_iff`); a graph that does not pass is
refused with a fault that it has (`hasFault_of_validate`).
-/

namespace Provision

/-- A reference to the resource stands somewhere in the property value. -/
inductive Property.RefersTo : Property → String → Prop
  | resource (name : String) : RefersTo (.resource name) name
  | attribute (name : String) (path : List AttrStep) : RefersTo (.attribute name path) name
  | item {x : Property} {xs : List Property} {name : String} :
    x ∈ xs → RefersTo x name → RefersTo (.list xs) name
  | entry {key : String} {v : Property} {es : List (String × Property)} {name : String} :
    (key, v) ∈ es → RefersTo v name → RefersTo (.map es) name

/-- One of the resource's properties refers to the resource named. -/
def Resource.RefersTo (r : Resource) (name : String) : Prop :=
  ∃ key p, r.properties.get? key = some p ∧ p.RefersTo name

namespace ResourceGraph

/-- A resource of the graph refers to the name. -/
def Edge (g : ResourceGraph) (source target : String) : Prop :=
  ∃ r, g.resource? source = some r ∧ r.RefersTo target

/-- The graph is the other one or is nested in it at some depth. -/
inductive NestedIn : ResourceGraph → ResourceGraph → Prop
  | self (g : ResourceGraph) : NestedIn g g
  | file {inner nested g : ResourceGraph} {name : String} :
    (name, nested) ∈ g.files → NestedIn inner nested → NestedIn inner g

/-- Nothing is wrong with the graph itself, nested graphs left aside. -/
structure Coherent (g : ResourceGraph) : Prop where
  references : ∀ source target, g.Edge source target → g.contains target
  outputs : ∀ name o, g.outputs.get? name = some o → g.contains o.resource
  acyclic : ∀ name, ¬ Relation.TransGen g.Edge name name

/-- What the fault says is so. -/
inductive HasFault : ResourceGraph → GraphFault → Prop
  | unknownReference {g : ResourceGraph} {source target : String} :
    g.Edge source target → ¬ g.contains target → HasFault g (.unknownReference source target)
  | unknownSource {g : ResourceGraph} {name : String} {o : Output} :
    g.outputs.get? name = some o → ¬ g.contains o.resource →
      HasFault g (.unknownSource name o.resource)
  | cycle {g : ResourceGraph} {name : String} :
    Relation.TransGen g.Edge name name → HasFault g (.cycle name)
  | inFile {g nested : ResourceGraph} {name : String} {f : GraphFault} :
    (name, nested) ∈ g.files → HasFault nested f → HasFault g (.inFile name f)

end ResourceGraph

/-! ## References -/

namespace Property

theorem refersTo_list {xs : List Property} {name : String} :
    RefersTo (.list xs) name ↔ ∃ x ∈ xs, x.RefersTo name := by
  constructor
  · rintro ⟨⟩
    exact ⟨_, ‹_›, ‹_›⟩
  · rintro ⟨x, hx, h⟩
    exact .item hx h

theorem refersTo_map {es : List (String × Property)} {name : String} :
    RefersTo (.map es) name ↔ ∃ e ∈ es, e.2.RefersTo name := by
  constructor
  · rintro ⟨⟩
    exact ⟨_, ‹_›, ‹_›⟩
  · rintro ⟨⟨key, v⟩, he, h⟩
    exact .entry he h

mutual

/-- The list of references holds what is referred to, at whatever depth. -/
theorem mem_referenceList {name : String} :
    ∀ {p : Property}, name ∈ p.referenceList ↔ p.RefersTo name
  | .resource other => by
    constructor
    · intro h
      obtain rfl : name = other := by simpa [referenceList] using h
      exact .resource name
    · rintro ⟨⟩
      simp [referenceList]
  | .attribute other path => by
    constructor
    · intro h
      obtain rfl : name = other := by simpa [referenceList] using h
      exact .attribute name path
    · rintro ⟨⟩
      simp [referenceList]
  | .list xs => by
    rw [referenceList, mem_referenceListItems, refersTo_list]
  | .map es => by
    rw [referenceList, mem_referenceListEntries, refersTo_map]
  | .null | .bool _ | .int _ | .float _ | .string _ | .parameter _ => by
    simp only [referenceList, List.not_mem_nil, false_iff]
    rintro ⟨⟩

theorem mem_referenceListItems {name : String} :
    ∀ {xs : List Property}, name ∈ referenceListItems xs ↔ ∃ x ∈ xs, x.RefersTo name
  | [] => by simp [referenceListItems]
  | x :: xs => by
    rw [referenceListItems, List.mem_append, mem_referenceList, mem_referenceListItems]
    simp

theorem mem_referenceListEntries {name : String} :
    ∀ {es : List (String × Property)},
      name ∈ referenceListEntries es ↔ ∃ e ∈ es, e.2.RefersTo name
  | [] => by simp [referenceListEntries]
  | (key, v) :: es => by
    rw [referenceListEntries, List.mem_append, mem_referenceList, mem_referenceListEntries]
    simp

end

end Property

theorem Resource.mem_references {r : Resource} {name : String} :
    name ∈ r.references.names ↔ r.RefersTo name := by
  unfold Resource.references Resource.RefersTo
  rw [NameSet.mem_names_ofNames]
  constructor
  · intro h
    obtain ⟨p, hp, hn⟩ := List.mem_flatMap.1 h
    obtain ⟨key, hk⟩ := Table.mem_values.1 hp
    exact ⟨key, p, hk, Property.mem_referenceList.1 hn⟩
  · rintro ⟨key, p, hk, hn⟩
    exact List.mem_flatMap.2 ⟨p, Table.mem_values.2 ⟨key, hk⟩, Property.mem_referenceList.2 hn⟩

namespace ResourceGraph

variable {g : ResourceGraph}

theorem mem_edges {source target : String} : (source, target) ∈ g.edges ↔ g.Edge source target := by
  unfold edges Edge resource?
  constructor
  · intro h
    obtain ⟨⟨name, r⟩, he, ht⟩ := List.mem_flatMap.1 h
    obtain ⟨t, ht, heq⟩ := List.mem_map.1 ht
    cases heq
    exact ⟨r, Table.mem_entries.1 he, Resource.mem_references.1 ht⟩
  · rintro ⟨r, hr, ht⟩
    refine List.mem_flatMap.2 ⟨(source, r), Table.mem_entries.2 hr, ?_⟩
    exact List.mem_map.2 ⟨target, Resource.mem_references.2 ht, rfl⟩

theorem mem_targets {source target : String} :
    target ∈ g.targets source ↔ g.Edge source target := by
  unfold targets Edge
  rcases g.resource? source with _ | r
  · simp
  · simpa using Resource.mem_references

theorem leads_targets : Acyclic.Leads g.targets = g.Edge := by
  funext source target
  exact propext mem_targets

theorem contains_of_edge {source target : String} (h : g.Edge source target) :
    g.contains source := by
  obtain ⟨r, hr, -⟩ := h
  exact Table.contains_of_get? hr

/-! ## One graph -/

theorem onCycle?_targets_eq_none :
    Acyclic.onCycle? g.targets g.resources.names = none
      ↔ ∀ name, ¬ Relation.TransGen g.Edge name name := by
  rw [← leads_targets]
  refine Acyclic.onCycle?_eq_none_iff fun n t h => Table.mem_names.2 ?_
  exact contains_of_edge (mem_targets.1 h)

/-- A graph without a flaw is coherent, and the other way round. -/
theorem flaw?_eq_none_iff : g.flaw? = none ↔ g.Coherent := by
  unfold flaw?
  rcases he : g.edges.find? fun e => !g.contains e.2 with _ | ⟨source, target⟩
  · have hedges : ∀ source target, g.Edge source target → g.contains target := by
      intro source target h
      simpa using List.find?_eq_none.1 he _ (mem_edges.2 h)
    rcases ho : g.outputs.entries.find? fun e => !g.contains e.2.resource with _ | ⟨name, o⟩
    · have houtputs : ∀ name o, g.outputs.get? name = some o → g.contains o.resource := by
        intro name o h
        simpa using List.find?_eq_none.1 ho _ (Table.mem_entries.2 h)
      simp only [he, ho, Option.map_eq_none_iff, onCycle?_targets_eq_none]
      exact ⟨fun h => ⟨hedges, houtputs, h⟩, fun h => h.acyclic⟩
    · have hm := Table.mem_entries.1 (List.mem_of_find?_eq_some ho)
      have hn : g.contains o.resource = false := by simpa using List.find?_some ho
      simp only [he, ho, reduceCtorEq, false_iff]
      intro h
      have := h.outputs name o hm
      simp [hn] at this
  · have hm := mem_edges.1 (List.mem_of_find?_eq_some he)
    have hn : g.contains target = false := by simpa using List.find?_some he
    simp only [he, reduceCtorEq, false_iff]
    intro h
    have := h.references source target hm
    simp [hn] at this

theorem hasFault_of_flaw? {f : GraphFault} (h : g.flaw? = some f) : g.HasFault f := by
  unfold flaw? at h
  split at h
  · rename_i source target he
    cases h
    exact .unknownReference (mem_edges.1 (List.mem_of_find?_eq_some he))
      (by simpa using List.find?_some he)
  · split at h
    · rename_i name o ho
      cases h
      exact .unknownSource (Table.mem_entries.1 (List.mem_of_find?_eq_some ho))
        (by simpa using List.find?_some ho)
    · obtain ⟨name, hc, rfl⟩ := Option.map_eq_some_iff.1 h
      have hcycle := Acyclic.cycle_of_onCycle? hc
      rw [leads_targets] at hcycle
      exact .cycle hcycle

/-! ## Nested graphs -/

theorem fault?_eq (g : ResourceGraph) :
    g.fault? = match g.flaw? with
      | some f => some f
      | none => filesFault? g.files := by
  cases g
  unfold fault?
  rfl

theorem nestedIn_iff {inner : ResourceGraph} :
    inner.NestedIn g ↔ inner = g ∨ ∃ e ∈ g.files, inner.NestedIn e.2 := by
  constructor
  · rintro (_ | ⟨he, h⟩)
    · exact .inl rfl
    · exact .inr ⟨_, he, h⟩
  · rintro (rfl | ⟨⟨name, nested⟩, he, h⟩)
    · exact .self _
    · exact .file he h

mutual

theorem fault?_eq_none_iff :
    ∀ (g : ResourceGraph), g.fault? = none ↔ ∀ inner : ResourceGraph, inner.NestedIn g →
      inner.Coherent
  | ⟨description, resources, outputs, files⟩ => by
    have hfiles := filesFault?_eq_none_iff files
    set g : ResourceGraph := ⟨description, resources, outputs, files⟩
    have hsplit : g.fault? = none ↔ g.Coherent ∧ filesFault? files = none := by
      rw [fault?_eq, ← flaw?_eq_none_iff]
      rcases g.flaw? with _ | f <;> simp [g]
    rw [hsplit, hfiles]
    constructor
    · rintro ⟨hg, hn⟩ inner h
      rcases nestedIn_iff.1 h with rfl | ⟨e, he, h⟩
      · exact hg
      · exact hn e he inner h
    · intro h
      exact ⟨h g (.self g), fun e he inner hi => h inner (nestedIn_iff.2 (.inr ⟨e, he, hi⟩))⟩

theorem filesFault?_eq_none_iff :
    ∀ (files : List (String × ResourceGraph)), filesFault? files = none ↔
      ∀ e ∈ files, ∀ inner : ResourceGraph, inner.NestedIn e.2 → inner.Coherent
  | [] => by simp [filesFault?]
  | (name, nested) :: files => by
    have hnested := fault?_eq_none_iff nested
    have hfiles := filesFault?_eq_none_iff files
    rw [filesFault?, List.forall_mem_cons, ← hnested, ← hfiles]
    rcases nested.fault? with _ | f <;> simp

end

mutual

theorem hasFault_of_fault? :
    ∀ (g : ResourceGraph) {f : GraphFault}, g.fault? = some f → g.HasFault f
  | ⟨description, resources, outputs, files⟩, f, h => by
    have hfiles := @hasFault_of_filesFault? files
    rw [fault?_eq] at h
    split at h
    · rename_i flaw hflaw
      cases h
      exact hasFault_of_flaw? hflaw
    · obtain ⟨name, nested, inner, he, rfl, hi⟩ := hfiles h
      exact .inFile he hi

theorem hasFault_of_filesFault? :
    ∀ {files : List (String × ResourceGraph)} {f : GraphFault}, filesFault? files = some f →
      ∃ name nested inner, (name, nested) ∈ files ∧ f = .inFile name inner ∧
        nested.HasFault inner
  | [], _, h => by simp [filesFault?] at h
  | (name, nested) :: files, f, h => by
    rw [filesFault?] at h
    split at h
    · rename_i inner hi
      cases h
      exact ⟨name, nested, inner, List.mem_cons_self, rfl, hasFault_of_fault? nested hi⟩
    · obtain ⟨name', nested', inner, he, hf, hi⟩ := hasFault_of_filesFault? h
      exact ⟨name', nested', inner, List.mem_cons_of_mem _ he, hf, hi⟩

end

theorem validate_eq_ok_iff :
    g.validate = .ok () ↔ ∀ inner : ResourceGraph, inner.NestedIn g → inner.Coherent := by
  rw [← fault?_eq_none_iff]
  unfold validate
  rcases g.fault? with _ | f <;> simp

theorem hasFault_of_validate {f : GraphFault} (h : g.validate = .error f) : g.HasFault f := by
  unfold validate at h
  rcases hf : g.fault? with _ | f' <;> rw [hf] at h <;> simp only [reduceCtorEq,
    Except.error.injEq] at h
  subst h
  exact hasFault_of_fault? g hf

/-- Validation is sound and complete: a graph passes exactly if it and every graph nested in it at
any depth is coherent, and a graph that does not pass is refused as an invalid graph, with a fault
that is really there. -/
theorem validate_sound_and_complete (g : ResourceGraph) :
    (g.validate = .ok () ↔ ∀ inner : ResourceGraph, inner.NestedIn g → inner.Coherent)
      ∧ ∀ fault, g.validate.mapError Fault.invalidGraph = .error fault →
        ∃ flaw, fault = .invalidGraph flaw ∧ g.HasFault flaw := by
  refine ⟨validate_eq_ok_iff, fun fault h => ?_⟩
  rcases hv : g.validate with flaw | u <;> rw [hv] at h <;> cases h
  exact ⟨flaw, rfl, hasFault_of_validate hv⟩

end ResourceGraph

end Provision
