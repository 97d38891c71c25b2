import Provision.Proofs.Masking
import Provision.Proofs.Origins

/-!
# What compilation lets validation read

Nearly all properties that compilation sets are taken over from JSON, or cannot be taken for
references. The exceptions are the metadata of servers and the extra specs of flavors: these are
mappings that compilation makes itself, of names and values that somebody else has chosen
(`Verbatim`). Every resource of a compiled graph is made so (`legible_of_compile`).
-/

namespace Provision

open MonadAttach LawfulMonadAttach

/-- Where compilation puts a mapping of its own making. -/
def Verbatim (type key : String) : Prop :=
  (type = serverType ∧ key = "metadata") ∨ (type = flavorType ∧ key = "extra_specs")

/-- Nothing in the property is masked, unless it is a mapping put there verbatim. -/
def Property.Readable (type key : String) (p : Property) : Prop :=
  ¬p.Masked ∨ (Verbatim type key ∧ ∃ es, p = .map es ∧ ∀ e ∈ es, ¬e.2.Masked)

theorem Property.Readable.entries {type key : String} {es : List (String × Property)}
    (h : (Property.map es).Readable type key) : ∀ e ∈ es, ¬e.2.Masked := by
  rcases h with hmask | ⟨-, es', heq, hes⟩
  · exact fun e he hentry => hmask (.entry he hentry)
  · cases heq
    exact hes

namespace Resource

/-- The properties of the resource are readable, and not together something like a reference. -/
structure Legible (r : Resource) : Prop where
  named : ∀ key ∈ Value.referenceKeys, r.properties.contains key = true →
    r.properties.contains "network" = true
  readable : ∀ key p, r.properties.get? key = some p → p.Readable r.type key

variable {r : Resource} {key : String} {p : Property}

theorem legible_new (type : String) : (Resource.new type).Legible where
  named _ _ h := by cases h
  readable _ _ h := by cases h

theorem Legible.set (h : r.Legible) (hkey : key ∉ Value.referenceKeys)
    (hp : p.Readable r.type key) : (r.set key p).Legible where
  named other hother hcontains := by
    have hne : other ≠ key := by
      rintro rfl
      exact hkey hother
    have hold : r.properties.contains other = true := by
      rwa [Resource.set, Table.contains, Table.get?_put, if_neg hne] at hcontains
    exact contains_set (h.named other hother hold)
  readable other q hq := by
    rw [Resource.set, Table.get?_put] at hq
    split_ifs at hq with heq
    · cases hq
      rw [heq]
      exact hp
    · exact h.readable other q hq

theorem Legible.setPlain (h : r.Legible) (hkey : key ∉ Value.referenceKeys) (hp : ¬p.Masked) :
    (r.set key p).Legible :=
  h.set hkey (.inl hp)

end Resource

/-- All resources of the graph are legible, those of nested graphs left aside. -/
def ResourceGraph.Legible (g : ResourceGraph) : Prop :=
  ∀ n r, g.resource? n = some r → r.Legible

/-! ## Resources that are traced -/

variable {d : Descriptor} {s : Substitution} {configured : Table String}
variable {name type key : String} {p : Property}

theorem Compile.not_masked_networks (requests : List PortRequest) :
    ¬(Compile.networks requests).Masked := by
  refine Property.not_masked_list fun x hx => ?_
  obtain ⟨r, -, rfl⟩ := List.mem_map.1 hx
  exact Property.not_masked_single (by decide) Property.not_masked_resource

/-- A property that has a fallback, or is one, is none that compilation puts there verbatim. -/
theorem ne_of_fallback {f : Fallback} (hf : f ∈ fallbacks)
    (hkey : key = f.property ∨ key = f.passthrough) : key ≠ "metadata" ∧ key ≠ "extra_specs" := by
  obtain rfl := List.mem_singleton.1 hf
  rcases hkey with rfl | rfl
  · decide
  · decide

theorem Property.Readable.of_fallback {f : Fallback} (hf : f ∈ fallbacks)
    (hkey : key = f.property ∨ key = f.passthrough) (h : p.Readable type key) : ¬p.Masked := by
  rcases h with hmask | ⟨⟨-, hverbatim⟩ | ⟨-, hverbatim⟩, -⟩
  · exact hmask
  · exact absurd hverbatim (ne_of_fallback hf hkey).1
  · exact absurd hverbatim (ne_of_fallback hf hkey).2

theorem Origin.readable (h : Origin d s configured name type key p) : p.Readable type key := by
  induction h with
  | bool b => exact .inl Property.not_masked_bool
  | int i => exact .inl Property.not_masked_int
  | string text => exact .inl Property.not_masked_string
  | resource target => exact .inl Property.not_masked_resource
  | said h =>
    obtain ⟨l, v, -, -, rfl⟩ := h
    exact .inl (Property.not_masked_ofValue v)
  | metadata htype =>
    refine .inr ⟨.inl ⟨htype, rfl⟩, _, rfl, fun e he => ?_⟩
    obtain ⟨m, -, rfl⟩ := List.mem_map.1 he
    exact Property.not_masked_ofValue m.2
  | extraSpecs htype =>
    refine .inr ⟨.inr ⟨htype, rfl⟩, _, rfl, fun e he => ?_⟩
    obtain ⟨m, -, rfl⟩ := List.mem_map.1 he
    exact Property.not_masked_string
  | networks requests => exact .inl (Compile.not_masked_networks requests)
  | addresses =>
    refine .inl (Property.not_masked_list fun x hx => ?_)
    obtain ⟨a, -, rfl⟩ := List.mem_map.1 hx
    exact Property.not_masked_single (by decide) (Property.not_masked_ofValue a)
  | passed hf _ ih =>
    have hkey : ∀ f ∈ fallbacks, f.property ∉ Value.referenceKeys := by decide
    exact .inl (Property.not_masked_single (hkey _ hf) (ih.of_fallback hf (.inl rfl)))
  | joined hf _ _ ih ihmap =>
    have hkey : ∀ f ∈ fallbacks, f.property ∉ Value.referenceKeys := by decide
    refine .inl (Property.not_masked_map Entries.mem_put_self (hkey _ hf) fun e he => ?_)
    rcases Entries.of_mem_put he with rfl | he
    · exact ih.of_fallback hf (.inl rfl)
    · exact ihmap.entries e he

theorem Resource.Traced.legible {r : Resource} (h : r.Traced d s configured name) :
    r.Legible where
  named key hkey hcontains := by
    have hown : ∀ key ∈ Value.referenceKeys, key ∉ ownKeys := by decide
    exact (h.named key hcontains).resolve_left (hown key hkey)
  readable key p hp := (h.origin key p hp).readable

theorem Descriptor.legible_of_compile {m : Type → Type} [Monad m] [LawfulMonad m] [MonadAttach m]
    [LawfulMonadAttach m] {settings : CompilerSettings} {parameters : Option Parameters}
    {catalog : Catalog m} {compiled : Compiled}
    (h : CanReturn (d.compile settings parameters catalog) compiled) : compiled.graph.Legible :=
  fun n r hr => ((traced_of_compile h).1 n r hr).legible

end Provision
