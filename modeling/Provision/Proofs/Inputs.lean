import Provision.Proofs.Components

/-!
# The inputs that a descriptor mentions

A component holds a leaf in any of its fields, and a leaf mentions an input at any depth. The names
collected from a descriptor are exactly those that its components mention
(`mem_referencedInputs`). So a substitution can be prepared exactly if every input that is mentioned
has a value (`prepare_none_eq_ok_iff`, `prepare_some_eq_ok_iff`), and what is said otherwise names
the first one that has none (`firstWant_of_prepare`).
-/

namespace Provision

/-- A reference to the input stands somewhere in the leaf. -/
inductive Leaf.Mentions : Leaf → String → Prop
  | input (name : String) : Mentions (.input name) name
  | item {x : Leaf} {xs : List Leaf} {name : String} :
    x ∈ xs → Mentions x name → Mentions (.list xs) name
  | entry {key : String} {x : Leaf} {es : List (String × Leaf)} {name : String} :
    (key, x) ∈ es → Mentions x name → Mentions (.map es) name

/-- The leaf is one of the capabilities. -/
inductive Capabilities.Holds (c : Capabilities) : Leaf → Prop
  | numCpus {l : Leaf} : c.numCpus = some l → Holds c l
  | diskSize {l : Leaf} : c.diskSize = some l → Holds c l
  | memSize {l : Leaf} : c.memSize = some l → Holds c l
  | memPageSize {l : Leaf} : c.memPageSize = some l → Holds c l
  | numaNodeCount {l : Leaf} : c.numaNodeCount = some l → Holds c l
  | numaNode {name key : String} {node : Table Leaf} {l : Leaf} :
    c.numaNodes.get? name = some node → node.get? key = some l → Holds c l
  | cpuAllocation {key : String} {l : Leaf} : c.cpuAllocation.get? key = some l → Holds c l

/-- The leaf is in one of the server's fields. -/
inductive Compute.Holds (c : Compute) : Leaf → Prop
  | image {l : Leaf} : c.image = some l → Holds c l
  | artifact {a : ImageArtifact} {l : Leaf} : c.artifact = some a → a.file = some l → Holds c l
  | flavor {l : Leaf} : c.flavor = some l → Holds c l
  | capabilities {caps : Capabilities} {l : Leaf} :
    c.capabilities = some caps → caps.Holds l → Holds c l
  | addresses {r : NetworkRequirement} {l : Leaf} :
    r ∈ c.networks → r.addresses = some l → Holds c l
  | networkProperty {r : NetworkRequirement} {key : String} {l : Leaf} :
    r ∈ c.networks → r.properties.get? key = some l → Holds c l
  | metadata {key : String} {l : Leaf} : c.metadata.get? key = some l → Holds c l
  | monitoring {p : MonitoringPolicy} {key : String} {l : Leaf} :
    c.monitoringPolicy = some p → p.parameters.get? key = some l → Holds c l
  | userData {l : Leaf} : c.userData = some l → Holds c l
  | keyName {l : Leaf} : c.keyName = some l → Holds c l
  | availabilityZone {l : Leaf} : c.availabilityZone = some l → Holds c l

/-- The leaf is in one of the component's fields. -/
inductive Component.Holds : Component → Leaf → Prop
  | compute {c : Compute} {l : Leaf} : c.Holds l → Holds (.compute c) l
  | size (s : Storage) : Holds (.storage s) s.size
  | image {s : Storage} {l : Leaf} : s.image = some l → Holds (.storage s) l
  | networkName (n : NetworkLink) : Holds (.networkLink n) n.networkName
  | addresses {p : ConnectionPoint} {l : Leaf} :
    p.addresses = some l → Holds (.connectionPoint p) l
  | property {p : ConnectionPoint} {key : String} {l : Leaf} :
    p.properties.get? key = some l → Holds (.connectionPoint p) l

/-- Some component of the descriptor mentions the input. -/
def Descriptor.Mentions (d : Descriptor) (input : String) : Prop :=
  ∃ name c l, d.components.get? name = some c ∧ c.Holds l ∧ l.Mentions input

/-- The input has an entry in the table, or else a default that the descriptor declares. -/
def Descriptor.Supplies (d : Descriptor) (table : Parameters) (input : String) : Prop :=
  table.contains input ∨ ∃ decl v, d.inputs.get? input = some decl ∧ decl.default? = some v

/-- The fault names the first input that is mentioned though there is no table, or that is mentioned
and not supplied. -/
inductive Descriptor.FirstWant (d : Descriptor) : Option Parameters → Fault → Prop
  | table {input : String} : d.Mentions input → (∀ other, d.Mentions other → input ≤ other) →
    FirstWant d none (.missingParameter input)
  | value {table : Parameters} {input : String} : d.Mentions input → ¬ d.Supplies table input →
    (∀ other, d.Mentions other → ¬ d.Supplies table other → input ≤ other) →
      FirstWant d (some table) (.unresolvedInput input)

/-! ## The names collected -/

namespace Leaf

mutual

theorem mem_inputList {name : String} : ∀ {l : Leaf}, name ∈ l.inputList ↔ l.Mentions name
  | .input other => by
    constructor
    · intro h
      obtain rfl : name = other := by simpa [inputList] using h
      exact .input name
    · rintro ⟨⟩
      simp [inputList]
  | .list xs => by
    rw [inputList, mem_inputListItems]
    constructor
    · rintro ⟨x, hx, h⟩
      exact .item hx h
    · rintro ⟨⟩
      exact ⟨_, ‹_›, ‹_›⟩
  | .map es => by
    rw [inputList, mem_inputListEntries]
    constructor
    · rintro ⟨⟨key, x⟩, he, h⟩
      exact .entry he h
    · rintro ⟨⟩
      exact ⟨_, ‹_›, ‹_›⟩
  | .null | .bool _ | .int _ | .float _ | .string _ => by
    simp only [inputList, List.not_mem_nil, false_iff]
    rintro ⟨⟩

theorem mem_inputListItems {name : String} :
    ∀ {xs : List Leaf}, name ∈ inputListItems xs ↔ ∃ x ∈ xs, x.Mentions name
  | [] => by simp [inputListItems]
  | x :: xs => by
    rw [inputListItems, List.mem_append, mem_inputList, mem_inputListItems]
    simp

theorem mem_inputListEntries {name : String} :
    ∀ {es : List (String × Leaf)}, name ∈ inputListEntries es ↔ ∃ e ∈ es, e.2.Mentions name
  | [] => by simp [inputListEntries]
  | (key, x) :: es => by
    rw [inputListEntries, List.mem_append, mem_inputList, mem_inputListEntries]
    simp

end

theorem mem_inputListOption {o : Option Leaf} {name : String} :
    name ∈ inputListOption o ↔ ∃ l, o = some l ∧ l.Mentions name := by
  rcases o with _ | l
  · simp [inputListOption]
  · simp [inputListOption, mem_inputList]

theorem mem_inputListTable {t : Table Leaf} {name : String} :
    name ∈ inputListTable t ↔ ∃ key l, t.get? key = some l ∧ l.Mentions name := by
  simp only [inputListTable, List.mem_flatMap, Table.mem_values, mem_inputList]
  exact ⟨fun ⟨l, ⟨key, hl⟩, h⟩ => ⟨key, l, hl, h⟩, fun ⟨key, l, hl, h⟩ => ⟨l, ⟨key, hl⟩, h⟩⟩

end Leaf

open Leaf in
theorem Capabilities.mem_inputList {c : Capabilities} {name : String} :
    name ∈ c.inputList ↔ ∃ l, c.Holds l ∧ l.Mentions name := by
  simp only [inputList, List.mem_append, List.mem_flatMap, List.mem_cons, List.not_mem_nil,
    or_false, exists_eq_or_imp, exists_eq_left, Table.mem_values, mem_inputListOption,
    mem_inputListTable]
  constructor
  · rintro (((⟨l, h, hn⟩ | ⟨l, h, hn⟩ | ⟨l, h, hn⟩ | ⟨l, h, hn⟩ | ⟨l, h, hn⟩)
      | ⟨node, ⟨k, h⟩, key, l, hl, hn⟩) | ⟨key, l, h, hn⟩)
    · exact ⟨l, .numCpus h, hn⟩
    · exact ⟨l, .diskSize h, hn⟩
    · exact ⟨l, .memSize h, hn⟩
    · exact ⟨l, .memPageSize h, hn⟩
    · exact ⟨l, .numaNodeCount h, hn⟩
    · exact ⟨l, .numaNode h hl, hn⟩
    · exact ⟨l, .cpuAllocation h, hn⟩
  · rintro ⟨l, h | h | h | h | h | ⟨h, hl⟩ | h, hn⟩
    · exact .inl (.inl (.inl ⟨l, h, hn⟩))
    · exact .inl (.inl (.inr (.inl ⟨l, h, hn⟩)))
    · exact .inl (.inl (.inr (.inr (.inl ⟨l, h, hn⟩))))
    · exact .inl (.inl (.inr (.inr (.inr (.inl ⟨l, h, hn⟩)))))
    · exact .inl (.inl (.inr (.inr (.inr (.inr ⟨l, h, hn⟩)))))
    · exact .inl (.inr ⟨_, ⟨_, h⟩, _, l, hl, hn⟩)
    · exact .inr ⟨_, l, h, hn⟩

open Leaf in
theorem NetworkRequirement.mem_inputList {r : NetworkRequirement} {name : String} :
    name ∈ r.inputList ↔ (∃ l, r.addresses = some l ∧ l.Mentions name)
      ∨ ∃ key l, r.properties.get? key = some l ∧ l.Mentions name := by
  rw [inputList, List.mem_append, mem_inputListOption, mem_inputListTable]

open Leaf in
theorem Compute.inputList_eq (c : Compute) : c.inputList =
    [c.image, c.flavor, c.userData, c.keyName, c.availabilityZone].flatMap inputListOption
      ++ (c.artifact.toList.flatMap fun a => inputListOption a.file)
      ++ c.capabilities.toList.flatMap Capabilities.inputList
      ++ c.networks.flatMap NetworkRequirement.inputList ++ inputListTable c.metadata
      ++ c.monitoringPolicy.toList.flatMap fun p => inputListTable p.parameters := by
  unfold inputList
  congr 1
  · congr 1
    congr 1
    congr 1
    · congr 1
      rcases c.artifact with _ | a <;> simp
    · rcases c.capabilities with _ | caps <;> simp
  · rcases c.monitoringPolicy with _ | p <;> simp

open Leaf in
theorem Compute.mem_inputList {c : Compute} {name : String} :
    name ∈ c.inputList ↔ ∃ l, c.Holds l ∧ l.Mentions name := by
  simp only [inputList_eq, List.mem_append, List.mem_flatMap, Option.mem_toList,
    List.mem_cons, List.not_mem_nil, or_false, exists_eq_or_imp, exists_eq_left,
    mem_inputListOption, mem_inputListTable, NetworkRequirement.mem_inputList,
    Capabilities.mem_inputList]
  constructor
  · rintro ((((((⟨l, h, hn⟩ | ⟨l, h, hn⟩ | ⟨l, h, hn⟩ | ⟨l, h, hn⟩ | ⟨l, h, hn⟩)
      | ⟨a, ha, l, h, hn⟩) | ⟨caps, hc, l, h, hn⟩)
      | ⟨r, hr, ⟨l, h, hn⟩ | ⟨key, l, h, hn⟩⟩) | ⟨key, l, h, hn⟩) | ⟨p, hp, key, l, h, hn⟩)
    · exact ⟨l, .image h, hn⟩
    · exact ⟨l, .flavor h, hn⟩
    · exact ⟨l, .userData h, hn⟩
    · exact ⟨l, .keyName h, hn⟩
    · exact ⟨l, .availabilityZone h, hn⟩
    · exact ⟨l, .artifact ha h, hn⟩
    · exact ⟨l, .capabilities hc h, hn⟩
    · exact ⟨l, .addresses hr h, hn⟩
    · exact ⟨l, .networkProperty hr h, hn⟩
    · exact ⟨l, .metadata h, hn⟩
    · exact ⟨l, .monitoring hp h, hn⟩
  · rintro ⟨l, h | ⟨ha, h⟩ | h | ⟨hc, h⟩ | ⟨hr, h⟩ | ⟨hr, h⟩ | h | ⟨hp, h⟩ | h | h | h, hn⟩
    · exact .inl (.inl (.inl (.inl (.inl (.inl ⟨l, h, hn⟩)))))
    · exact .inl (.inl (.inl (.inl (.inr ⟨_, ha, l, h, hn⟩))))
    · exact .inl (.inl (.inl (.inl (.inl (.inr (.inl ⟨l, h, hn⟩))))))
    · exact .inl (.inl (.inl (.inr ⟨_, hc, l, h, hn⟩)))
    · exact .inl (.inl (.inr ⟨_, hr, .inl ⟨l, h, hn⟩⟩))
    · exact .inl (.inl (.inr ⟨_, hr, .inr ⟨_, l, h, hn⟩⟩))
    · exact .inl (.inr ⟨_, l, h, hn⟩)
    · exact .inr ⟨_, hp, _, l, h, hn⟩
    · exact .inl (.inl (.inl (.inl (.inl (.inr (.inr (.inl ⟨l, h, hn⟩)))))))
    · exact .inl (.inl (.inl (.inl (.inl (.inr (.inr (.inr (.inl ⟨l, h, hn⟩))))))))
    · exact .inl (.inl (.inl (.inl (.inl (.inr (.inr (.inr (.inr ⟨l, h, hn⟩))))))))

open Leaf in
theorem Component.mem_inputList {c : Component} {name : String} :
    name ∈ c.inputList ↔ ∃ l, c.Holds l ∧ l.Mentions name := by
  rcases c with c | s | n | p
  · rw [inputList, Compute.mem_inputList]
    constructor
    · rintro ⟨l, h, hn⟩
      exact ⟨l, .compute h, hn⟩
    · rintro ⟨l, h, hn⟩
      cases h with
      | compute h => exact ⟨l, h, hn⟩
  · rw [inputList, List.mem_append, Leaf.mem_inputList, mem_inputListOption]
    constructor
    · rintro (hn | ⟨l, h, hn⟩)
      · exact ⟨_, .size s, hn⟩
      · exact ⟨l, .image h, hn⟩
    · rintro ⟨l, h, hn⟩
      cases h with
      | size => exact .inl hn
      | image h => exact .inr ⟨l, h, hn⟩
  · rw [inputList, Leaf.mem_inputList]
    constructor
    · exact fun hn => ⟨_, .networkName n, hn⟩
    · rintro ⟨l, h, hn⟩
      cases h with
      | networkName => exact hn
  · rw [inputList, List.mem_append, mem_inputListOption, mem_inputListTable]
    constructor
    · rintro (⟨l, h, hn⟩ | ⟨key, l, h, hn⟩)
      · exact ⟨l, .addresses h, hn⟩
      · exact ⟨l, .property h, hn⟩
    · rintro ⟨l, h, hn⟩
      cases h with
      | addresses h => exact .inl ⟨l, h, hn⟩
      | property h => exact .inr ⟨_, l, h, hn⟩

theorem Descriptor.mem_referencedInputs {d : Descriptor} {name : String} :
    name ∈ d.referencedInputs.names ↔ d.Mentions name := by
  simp only [referencedInputs, NameSet.mem_names_ofNames, List.mem_flatMap, Table.mem_values,
    Component.mem_inputList]
  exact ⟨fun ⟨c, ⟨k, hc⟩, l, h⟩ => ⟨k, c, l, hc, h⟩, fun ⟨k, c, l, hc, h⟩ => ⟨c, ⟨k, hc⟩, l, h⟩⟩

/-! ## Preparing -/

namespace Substitution

variable {s : Substitution} {name : String}

theorem lookup_cases (s : Substitution) (name : String) :
    (∃ v, s.lookup name = .ok v) ∨ s.lookup name = .error (.unresolvedInput name) := by
  unfold lookup
  split
  · exact .inl ⟨_, rfl⟩
  · split
    · exact .inl ⟨_, rfl⟩
    · exact .inr rfl

/-- A prepared substitution can look the name up. -/
def HasValue (s : Substitution) (name : String) : Prop := ∃ v, s.lookup name = .ok v

theorem lookup_of_not_hasValue (h : ¬ s.HasValue name) :
    s.lookup name = .error (.unresolvedInput name) :=
  (s.lookup_cases name).resolve_left h

theorem hasValue_iff {d : Descriptor} {table : Parameters} :
    HasValue ⟨some table, d.inputs⟩ name ↔ d.Supplies table name := by
  unfold HasValue lookup Descriptor.Supplies
  simp only [Option.bind_some, Table.contains_iff]
  rcases table.get? name with _ | v
  · rcases d.inputs.get? name with _ | decl
    · simp
    · rcases hd : decl.default? with _ | v <;> simp [hd]
  · simp

theorem lookupAll_eq_ok_iff {names : List String} :
    s.lookupAll names = .ok () ↔ ∀ name ∈ names, s.HasValue name := by
  induction names with
  | nil => simp [lookupAll]
  | cons name names ih =>
    rw [lookupAll, bind_eq_ok_iff, List.forall_mem_cons, ih]
    simp [HasValue]

/-- The first name without a value ends the check. -/
theorem of_lookupAll_eq_error {names : List String} {fault : Fault} (ha : Ascending names)
    (h : s.lookupAll names = .error fault) :
    ∃ name ∈ names, fault = .unresolvedInput name ∧ ¬ s.HasValue name
      ∧ ∀ other ∈ names, ¬ s.HasValue other → name ≤ other := by
  induction names with
  | nil => cases h
  | cons name names ih =>
    obtain ⟨hlt, ha⟩ := List.pairwise_cons.1 ha
    rw [lookupAll] at h
    by_cases hv : s.HasValue name
    · obtain ⟨v, hv'⟩ := hv
      rw [hv'] at h
      obtain ⟨first, hm, hf, hn, hleast⟩ := ih ha h
      refine ⟨first, List.mem_cons_of_mem _ hm, hf, hn, fun other ho hno => ?_⟩
      rcases List.mem_cons.1 ho with rfl | ho
      · exact absurd ⟨v, hv'⟩ hno
      · exact hleast other ho hno
    · rw [lookup_of_not_hasValue hv] at h
      cases h
      refine ⟨name, List.mem_cons_self, rfl, hv, fun other ho _ => ?_⟩
      rcases List.mem_cons.1 ho with rfl | ho
      · exact String.le_refl other
      · exact String.not_lt.1 (String.lt_asymm (hlt other ho))

theorem prepare_none (d : Descriptor) : prepare d none =
    match d.referencedInputs.names with
    | first :: _ => .error (.missingParameter first)
    | [] => .ok ⟨none, d.inputs⟩ := by
  unfold prepare
  rcases d.referencedInputs.names with _ | ⟨first, rest⟩
  · rfl
  · rfl

theorem prepare_some (d : Descriptor) (table : Parameters) : prepare d (some table) = do
    lookupAll ⟨some table, d.inputs⟩ d.referencedInputs.names
    return ⟨some table, d.inputs⟩ := rfl

theorem eq_of_prepare {d : Descriptor} {parameters : Option Parameters}
    (h : prepare d parameters = .ok s) : s = ⟨parameters, d.inputs⟩ := by
  unfold prepare at h
  dsimp only at h
  split at h
  · cases h
  · obtain ⟨_, -, h⟩ := bind_eq_ok_iff.1 h
    cases h
    rfl

theorem prepare_some_eq_ok_iff {d : Descriptor} {table : Parameters} :
    (∃ s, prepare d (some table) = .ok s) ↔ ∀ name, d.Mentions name → d.Supplies table name := by
  simp only [prepare_some, bind_eq_ok_iff]
  constructor
  · rintro ⟨s, u, hall, -⟩ name hn
    exact hasValue_iff.1 (lookupAll_eq_ok_iff.1 hall name (Descriptor.mem_referencedInputs.2 hn))
  · intro h
    refine ⟨_, (), lookupAll_eq_ok_iff.2 fun name hn => ?_, rfl⟩
    exact hasValue_iff.2 (h name (Descriptor.mem_referencedInputs.1 hn))

theorem prepare_none_eq_ok_iff {d : Descriptor} :
    (∃ s, prepare d none = .ok s) ↔ ∀ name, ¬ d.Mentions name := by
  simp only [prepare_none, ← Descriptor.mem_referencedInputs]
  rcases d.referencedInputs.names with _ | ⟨first, rest⟩
  · simp
  · simp only [reduceCtorEq, exists_false, false_iff]
    exact fun h => h first List.mem_cons_self

theorem firstWant_of_prepare {d : Descriptor} {parameters : Option Parameters} {fault : Fault}
    (h : prepare d parameters = .error fault) : d.FirstWant parameters fault := by
  have ha : Ascending d.referencedInputs.names := d.referencedInputs.ascending
  rcases parameters with _ | table
  · rw [prepare_none] at h
    split at h
    · rename_i first rest hnames
      cases h
      rw [hnames] at ha
      refine .table (Descriptor.mem_referencedInputs.1 (hnames ▸ List.mem_cons_self)) ?_
      intro other ho
      rw [← Descriptor.mem_referencedInputs, hnames] at ho
      rcases List.mem_cons.1 ho with rfl | ho
      · exact String.le_refl other
      · exact String.not_lt.1 (String.lt_asymm ((List.pairwise_cons.1 ha).1 other ho))
    · cases h
  · rw [prepare_some] at h
    rcases hall : lookupAll ⟨some table, d.inputs⟩ d.referencedInputs.names with f | u
    · rw [hall] at h
      cases h
      obtain ⟨name, hm, rfl, hn, hleast⟩ := of_lookupAll_eq_error ha hall
      refine .value (Descriptor.mem_referencedInputs.1 hm) (hn ∘ hasValue_iff.2) ?_
      exact fun other ho hno =>
        hleast other (Descriptor.mem_referencedInputs.2 ho) (hno ∘ hasValue_iff.1)
    · rw [hall] at h
      cases h

end Substitution

end Provision
