import Mathlib.Data.List.Forall2
import Mathlib.Data.Option.Basic
import Provision.Compile.Flavor
import Provision.Proofs.Numerals
import Provision.Proofs.Returns
import Provision.Proofs.Tables

/-!
# Memory nodes in extra specs

A memory node is known to the endpoint by its id, which is resolved text, while the descriptor
lists the nodes under names of its own. The extra specs of each node are filed one after the other,
so under an id that several nodes share the last of them counts (`of_extraSpecs`), and the number of
nodes counts every one of them. All nodes are described if and only if no two share an id
(`MemoryNode.Filed.described_iff`).
-/

namespace Provision

/-! ## Entries filed in turn -/

namespace Table

variable {α : Type}

/-- Files the entries one after the other. -/
def putAll (t : Table α) (es : List (String × α)) : Table α :=
  es.foldl (fun t e => t.put e.1 e.2) t

theorem putAll_append (t : Table α) (es fs : List (String × α)) :
    t.putAll (es ++ fs) = (t.putAll es).putAll fs :=
  List.foldl_append

/-- Of the entries of a name the last one counts. -/
theorem get?_putAll (t : Table α) (es : List (String × α)) (x : String) :
    (t.putAll es).get? x
      = ((es.filter fun e => e.1 = x).map Prod.snd).getLast?.or (t.get? x) := by
  induction es generalizing t with
  | nil => rfl
  | cons e es ih =>
    rw [putAll, List.foldl_cons, ← putAll, ih, get?_put]
    by_cases hx : e.1 = x
    · subst hx
      rw [List.filter_cons_of_pos (by simp), List.map_cons, List.getLast?_cons, if_pos rfl]
      cases ((es.filter fun f => f.1 = e.1).map Prod.snd).getLast? <;> rfl
    · rw [List.filter_cons_of_neg (by simpa using hx), if_neg (Ne.symm hx)]

end Table

theorem ne_of_marks {mark mark' : List Char} {key key' : String} (h : mark <+: key.toList)
    (h' : mark' <+: key'.toList) (hne : ¬ mark <+: mark' ∧ ¬ mark' <+: mark) : key ≠ key' := by
  rintro rfl
  rcases List.prefix_or_prefix_of_prefix h h' with h | h
  · exact hne.1 h
  · exact hne.2 h

theorem prefix_append (mark rest : String) : mark.toList <+: (mark ++ rest).toList := by
  rw [String.toList_append]
  exact List.prefix_append ..

/-! ## Nodes and their specs -/

/-- A memory node: its id and what is given of its processors and of its memory. -/
structure MemoryNode where
  id : String
  processors : Option String
  megabytes : Option Int

namespace MemoryNode

/-- The extra spec that names the processors of the node with that id. -/
def processorsKey (id : String) : String := "hw:numa_cpus." ++ id

/-- The extra spec that gives the memory of the node with that id. -/
def memoryKey (id : String) : String := "hw:numa_mem." ++ id

/-- The extra specs of the node alone. -/
def specs (n : MemoryNode) : List (String × String) :=
  (n.processors.map fun text => (processorsKey n.id, text)).toList
    ++ (n.megabytes.map fun mb => (memoryKey n.id, Numeral.ofInt mb)).toList

theorem processorsKey_inj {a b : String} : processorsKey a = processorsKey b ↔ a = b :=
  String.append_right_inj _

theorem memoryKey_inj {a b : String} : memoryKey a = memoryKey b ↔ a = b :=
  String.append_right_inj _

theorem processorsKey_ne_memoryKey (a b : String) : processorsKey a ≠ memoryKey b :=
  ne_of_marks (prefix_append _ a) (prefix_append _ b) (by decide)

theorem specs_processors (n : MemoryNode) (id : String) :
    (n.specs.filter fun e => e.1 = processorsKey id).map Prod.snd
      = if n.id = id then n.processors.toList else [] := by
  have hmemory : memoryKey n.id ≠ processorsKey id := (processorsKey_ne_memoryKey id n.id).symm
  rcases n with ⟨i, _ | text, _ | mb⟩ <;> by_cases hid : i = id <;>
    simp_all [specs, processorsKey_inj]

theorem specs_memory (n : MemoryNode) (id : String) :
    (n.specs.filter fun e => e.1 = memoryKey id).map Prod.snd
      = if n.id = id then (n.megabytes.map Numeral.ofInt).toList else [] := by
  have hprocessors : processorsKey n.id ≠ memoryKey id := processorsKey_ne_memoryKey n.id id
  rcases n with ⟨i, _ | text, _ | mb⟩ <;> by_cases hid : i = id <;>
    simp_all [specs, memoryKey_inj]

/-- A spec that only nodes with an id have is the one of those nodes. -/
theorem filter_specs {key id : String} {given : MemoryNode → Option String}
    (h : ∀ n : MemoryNode, (n.specs.filter fun e => e.1 = key).map Prod.snd
      = if n.id = id then (given n).toList else []) (ns : List MemoryNode) :
    ((ns.flatMap specs).filter fun e => e.1 = key).map Prod.snd
      = (ns.filter fun n => n.id = id).filterMap given := by
  induction ns with
  | nil => rfl
  | cons n ns ih =>
    rw [List.flatMap_cons, List.filter_append, List.map_append, ih, h]
    by_cases hid : n.id = id
    · rw [if_pos hid, List.filter_cons_of_pos (by simpa using hid), List.filterMap_cons]
      cases given n <;> rfl
    · rw [if_neg hid, List.filter_cons_of_neg (by simpa using hid), List.nil_append]

end MemoryNode

/-- The leaves of a memory node, once they are resolved, say the node. -/
def Substitution.Reads (s : Substitution) (leaves : Table Leaf) (n : MemoryNode) : Prop :=
  ∃ values, s.resolveTable leaves = .ok values
    ∧ (values.get? "id").map Value.specText = some n.id
    ∧ (values.get? "vcpus").map Capabilities.processors = n.processors
    ∧ (values.get? "mem_size").map (Size.ofValue? .mega) = n.megabytes.map some

theorem Substitution.reads_unique {s : Substitution} {leaves : Table Leaf} {n n' : MemoryNode}
    (h : s.Reads leaves n) (h' : s.Reads leaves n') : n = n' := by
  obtain ⟨values, hvalues, hid, hcpus, hmemory⟩ := h
  obtain ⟨values', hvalues', hid', hcpus', hmemory'⟩ := h'
  obtain rfl : values = values' := Except.ok.inj (hvalues.symm.trans hvalues')
  have hid := Option.some.inj (hid.symm.trans hid')
  have hcpus := hcpus.symm.trans hcpus'
  have hmemory := Option.map_injective (Option.some_injective _) (hmemory.symm.trans hmemory')
  cases n
  cases n'
  simp_all

namespace Capabilities

variable {compute name : String} {s : Substitution} {specs specs' : Table String}
  {c : Capabilities}

theorem of_addNumaNode {leaves : Table Leaf}
    (h : addNumaNode compute s specs name leaves = .ok specs') :
    ∃ n, s.Reads leaves n ∧ specs' = specs.putAll n.specs := by
  obtain ⟨values, hvalues, h⟩ := bind_eq_ok_iff.1 h
  extract_lets rest identified at h
  have hrest : ∀ v, values.get? "id" = some v → rest v.specText = .ok specs' →
      ∃ n, s.Reads leaves n ∧ specs' = specs.putAll n.specs := by
    intro v hid h
    unfold rest at h
    extract_lets placed at h
    have hid' : (values.get? "id").map Value.specText = some v.specText := by
      rw [hid, Option.map_some]
    have hplaced : placed = specs.putAll (((values.get? "vcpus").map processors).map
        fun text => (MemoryNode.processorsKey v.specText, text)).toList := by
      unfold placed
      rcases values.get? "vcpus" with _ | cpus
      · rfl
      · rfl
    split at h
    · rename_i hmemory
      refine ⟨⟨v.specText, (values.get? "vcpus").map processors, none⟩,
        ⟨values, hvalues, hid', rfl, by rw [hmemory]; rfl⟩, ?_⟩
      rw [← Except.ok.inj h, hplaced, MemoryNode.specs, Table.putAll_append]
      rfl
    · rename_i size hmemory
      split at h
      · rename_i mb hsize
        refine ⟨⟨v.specText, (values.get? "vcpus").map processors, some mb⟩,
          ⟨values, hvalues, hid', rfl, by rw [hmemory, Option.map_some, hsize]; rfl⟩, ?_⟩
        rw [← Except.ok.inj h, hplaced, MemoryNode.specs, Table.putAll_append]
        rfl
      · cases h
  split at h
  · cases h
  · unfold identified at h
    split at h
    · rename_i v hid
      exact hrest v hid h
    · cases h

theorem of_addNumaNodes {nodes : List (String × Table Leaf)}
    (h : addNumaNodes compute s nodes specs = .ok specs') :
    ∃ ns, List.Forall₂ (fun e n => s.Reads e.2 n) nodes ns
      ∧ specs' = specs.putAll (ns.flatMap MemoryNode.specs) := by
  induction nodes generalizing specs with
  | nil =>
    cases h
    exact ⟨[], .nil, rfl⟩
  | cons e nodes ih =>
    obtain ⟨specs₁, hfirst, h⟩ := bind_eq_ok_iff.1 h
    obtain ⟨n, hn, rfl⟩ := of_addNumaNode hfirst
    obtain ⟨ns, hns, rfl⟩ := ih h
    exact ⟨n :: ns, .cons hn hns, by rw [List.flatMap_cons, Table.putAll_append]⟩

/-! ## What else is among the specs -/

/-- What the names of the extra specs of memory nodes begin with. -/
def nodeMark : List Char := "hw:numa_".toList

theorem ne_cpuSpec {key spec : String} (hkey : nodeMark <+: key.toList) {k : String}
    (h : cpuSpec? k = some spec) : key ≠ spec := by
  refine ne_of_marks hkey (List.prefix_refl spec.toList) ?_
  unfold cpuSpec? at h
  split at h <;> cases h <;> decide

theorem get?_addCpuAllocation {allocation : List (String × Value)} {key : String}
    (hkey : nodeMark <+: key.toList)
    (h : addCpuAllocation compute allocation specs = .ok specs') :
    specs'.get? key = specs.get? key := by
  induction allocation generalizing specs with
  | nil =>
    cases h
    rfl
  | cons e allocation ih =>
    rw [addCpuAllocation] at h
    split at h
    · rename_i spec hspec
      rw [ih h, Table.get?_put, if_neg (ne_cpuSpec hkey hspec)]
    · cases h

/-- What extra specs say of memory nodes is what each of these says, filed in turn, and how many
they are. -/
def NodeSpecs (specs : Table String) (ns : List MemoryNode) : Prop :=
  ∀ key, nodeMark <+: key.toList → specs.get? key
    = if ns = [] then none
      else if key = "hw:numa_nodes" then some (Numeral.ofNat ns.length)
      else (Table.empty.putAll (ns.flatMap MemoryNode.specs)).get? key

theorem of_extraSpecs (hcount : c.numaNodeCount = none)
    (h : c.extraSpecs compute s = .ok specs) :
    ∃ ns, List.Forall₂ (fun e n => s.Reads e.2 n) c.numaNodes.entries ns ∧ NodeSpecs specs ns := by
  obtain ⟨page, -, h⟩ := bind_eq_ok_iff.1 h
  -- What follows the page size, from the last step on.
  extract_lets allocation nodes at h
  have hallocation : ∀ before key, nodeMark <+: key.toList → allocation before = .ok specs →
      specs.get? key = before.get? key := by
    intro before key hkey h
    obtain ⟨values, -, h⟩ := bind_eq_ok_iff.1 h
    exact get?_addCpuAllocation hkey h
  have hnodes : ∀ before, (∀ key, nodeMark <+: key.toList → before.get? key = none) →
      nodes before = .ok specs → ∃ ns,
        List.Forall₂ (fun e n => s.Reads e.2 n) c.numaNodes.entries ns ∧ NodeSpecs specs ns := by
    intro before hbefore h
    obtain ⟨count, hnone, h⟩ := bind_eq_ok_iff.1 h
    rw [hcount] at hnone
    cases hnone
    dsimp only at h
    split at h
    · rename_i hempty
      refine ⟨[], ?_, fun key hkey => ?_⟩
      · rw [List.isEmpty_iff.1 hempty]
        exact .nil
      · rw [hallocation _ key hkey h, hbefore key hkey, if_pos rfl]
    · rename_i hsome
      obtain ⟨counted, hcounted, h⟩ := bind_eq_ok_iff.1 h
      obtain ⟨ns, hns, rfl⟩ := of_addNumaNodes hcounted
      have hne : ns ≠ [] := by
        rintro rfl
        exact hsome (List.isEmpty_iff.2 (List.forall₂_nil_right_iff.1 hns))
      refine ⟨ns, hns, fun key hkey => ?_⟩
      rw [hallocation _ key hkey h, Table.get?_put, if_neg hne, Table.get?_putAll,
        Table.get?_putAll, hbefore key hkey, Table.get?_empty, Table.size, hns.length_eq]
  have hempty : ∀ key, nodeMark <+: key.toList → (Table.empty : Table String).get? key = none :=
    fun _ _ => rfl
  split at h
  · obtain ⟨text, -, h⟩ := bind_eq_ok_iff.1 h
    refine hnodes _ (fun key hkey => ?_) h
    have hne : key ≠ "hw:mem_page_size" :=
      ne_of_marks hkey (List.prefix_refl _) (by decide)
    rw [Table.get?_put, if_neg hne, Table.get?_empty]
  · exact hnodes _ hempty h

end Capabilities

/-! ## Shared ids -/

theorem filter_eq_singleton_of_nodup {α β : Type} [DecidableEq β] {f : α → β} {a : α} :
    ∀ {l : List α}, (l.map f).Nodup → a ∈ l → (l.filter fun b => f b = f a) = [a]
  | b :: l, hn, ha => by
    obtain ⟨hb, hn⟩ := List.nodup_cons.1 hn
    rcases List.mem_cons.1 ha with rfl | ha
    · rw [List.filter_cons_of_pos (by simp), List.cons.injEq, and_iff_right rfl,
        List.filter_eq_nil_iff]
      rintro c hc heq
      exact hb (List.mem_map.2 ⟨c, hc, of_decide_eq_true heq⟩)
    · have hne : f b ≠ f a := fun heq => hb (List.mem_map.2 ⟨a, ha, heq.symm⟩)
      rw [List.filter_cons_of_neg (by simpa using hne), filter_eq_singleton_of_nodup hn ha]

namespace MemoryNode

variable {ns : List MemoryNode} {specs : Table String}

/-- What the extra specs say of memory nodes: their number, and for each id what the last node with
that id gives. -/
structure Filed (ns : List MemoryNode) (specs : Table String) : Prop where
  count : specs.get? "hw:numa_nodes" = if ns = [] then none else some (Numeral.ofNat ns.length)
  processors : ∀ id, specs.get? (processorsKey id)
    = ((ns.filter fun n => n.id = id).filterMap processors).getLast?
  memory : ∀ id, specs.get? (memoryKey id)
    = (((ns.filter fun n => n.id = id).filterMap megabytes).map Numeral.ofInt).getLast?

/-- The extra specs describe every one of the nodes under its id, and count the ids. -/
structure Described (ns : List MemoryNode) (specs : Table String) : Prop where
  processors : ∀ n ∈ ns, ∀ text, n.processors = some text →
    specs.get? (processorsKey n.id) = some text
  memory : ∀ n ∈ ns, ∀ mb, n.megabytes = some mb →
    specs.get? (memoryKey n.id) = some (Numeral.ofInt mb)
  count : ns ≠ [] →
    specs.get? "hw:numa_nodes" = some (Numeral.ofNat (ns.map MemoryNode.id).dedup.length)

/-- The number of nodes is the number of ids only if no two nodes share one, and then the last node
with an id is the only one. -/
theorem Filed.described_iff (h : Filed ns specs) :
    Described ns specs ↔ (ns.map MemoryNode.id).Nodup := by
  constructor
  · intro hd
    rcases List.eq_nil_or_concat ns with rfl | ⟨_, _, hns⟩
    · exact List.nodup_nil
    · have hne : ns ≠ [] := by simp [hns]
      have hcount := (hd.count hne).symm.trans h.count
      rw [if_neg hne, Option.some.injEq, Numeral.ofNat_inj] at hcount
      rw [← length_dedup_eq_iff, hcount, List.length_map]
  · intro hn
    refine ⟨fun n hmem text htext => ?_, fun n hmem mb hmb => ?_, fun hne => ?_⟩
    · rw [h.processors, filter_eq_singleton_of_nodup hn hmem, List.filterMap_cons, htext]
      rfl
    · rw [h.memory, filter_eq_singleton_of_nodup hn hmem, List.filterMap_cons, hmb]
      rfl
    · rw [h.count, if_neg hne, hn.dedup, List.length_map]

end MemoryNode

namespace Capabilities

variable {compute : String} {s : Substitution} {specs : Table String} {c : Capabilities}

theorem NodeSpecs.get?_eq {ns : List MemoryNode} {key id : String}
    {given : MemoryNode → Option String} (h : NodeSpecs specs ns) (hmark : nodeMark <+: key.toList)
    (hne : key ≠ "hw:numa_nodes")
    (hkey : ∀ n : MemoryNode, (n.specs.filter fun e => e.1 = key).map Prod.snd
      = if n.id = id then (given n).toList else []) :
    specs.get? key = ((ns.filter fun n => n.id = id).filterMap given).getLast? := by
  rw [h key hmark, if_neg hne, Table.get?_putAll, Table.get?_empty, Option.or_none,
    MemoryNode.filter_specs hkey]
  split
  · rename_i hnil
    rw [hnil]
    rfl
  · rfl

theorem NodeSpecs.filed {ns : List MemoryNode} (h : NodeSpecs specs ns) :
    MemoryNode.Filed ns specs where
  count := by
    rw [h _ (by decide)]
    rfl
  processors id := by
    have hmark : nodeMark <+: (MemoryNode.processorsKey id).toList :=
      (show nodeMark <+: "hw:numa_cpus.".toList by decide).trans (prefix_append _ id)
    have hne : MemoryNode.processorsKey id ≠ "hw:numa_nodes" :=
      ne_of_marks (prefix_append _ id) (List.prefix_refl _) (by decide)
    exact h.get?_eq hmark hne fun n => n.specs_processors id
  memory id := by
    have hmark : nodeMark <+: (MemoryNode.memoryKey id).toList :=
      (show nodeMark <+: "hw:numa_mem.".toList by decide).trans (prefix_append _ id)
    have hne : MemoryNode.memoryKey id ≠ "hw:numa_nodes" :=
      ne_of_marks (prefix_append _ id) (List.prefix_refl _) (by decide)
    rw [h.get?_eq hmark hne fun n => n.specs_memory id, List.map_filterMap]

/-- Extra specs say of each id what the last memory node with that id gives, and how many nodes
there are. They describe every node if and only if no two nodes share an id; nodes that do are not
refused. -/
theorem nodes_described_iff (hcount : c.numaNodeCount = none)
    (h : c.extraSpecs compute s = .ok specs) :
    ∃ ns, List.Forall₂ (fun e n => s.Reads e.2 n) c.numaNodes.entries ns
      ∧ MemoryNode.Filed ns specs
      ∧ (MemoryNode.Described ns specs ↔ (ns.map MemoryNode.id).Nodup) := by
  obtain ⟨ns, hns, hspecs⟩ := of_extraSpecs hcount h
  exact ⟨ns, hns, hspecs.filed, hspecs.filed.described_iff⟩

/-- Two memory nodes with the given ids. -/
def twoNodes (id id' : Leaf) : Capabilities :=
  { blank with
    numaNodes := .ofList
      [("node0", .ofList [("id", id), ("vcpus", .string "0-1")]),
       ("node1", .ofList [("id", id'), ("vcpus", .string "2-3"), ("mem_size", .string "1 GB")])] }

/-- What the two nodes come to. -/
def readNodes (id id' : String) : List MemoryNode :=
  [⟨id, some "0-1", none⟩, ⟨id', some "2-3", some 1024⟩]

theorem twoNodes_described :
    ∃ specs ns, (twoNodes (.int 0) (.int 1)).numaNodeCount = none
      ∧ (twoNodes (.int 0) (.int 1)).extraSpecs "VDU1" ⟨none, .empty⟩ = .ok specs
      ∧ List.Forall₂ (fun e n => Substitution.Reads ⟨none, .empty⟩ e.2 n)
        (twoNodes (.int 0) (.int 1)).numaNodes.entries ns
      ∧ MemoryNode.Described ns specs := by
  obtain ⟨specs, hs⟩ :
      ∃ specs, (twoNodes (.int 0) (.int 1)).extraSpecs "VDU1" ⟨none, .empty⟩ = .ok specs :=
    exists_ok_of_toBool (by decide +kernel)
  obtain ⟨ns, hns, -, hiff⟩ := nodes_described_iff rfl hs
  have hread : List.Forall₂ (fun e n => Substitution.Reads ⟨none, .empty⟩ e.2 n)
      (twoNodes (.int 0) (.int 1)).numaNodes.entries (readNodes "0" "1") :=
    .cons ⟨_, rfl, by decide +kernel, rfl, rfl⟩
      (.cons ⟨_, rfl, by decide +kernel, rfl, by decide +kernel⟩ .nil)
  have hunique : Relator.RightUnique fun (e : String × Table Leaf) n =>
      Substitution.Reads ⟨none, .empty⟩ e.2 n :=
    fun _ _ _ => Substitution.reads_unique
  obtain rfl : ns = readNodes "0" "1" := hunique.forall₂ hns hread
  exact ⟨specs, _, rfl, hs, hns, hiff.2 (by decide)⟩

/-- The number 0 and the text "0" are one id: the first node is lost, and still counted. -/
theorem twoNodes_lost :
    ∃ specs, (twoNodes (.int 0) (.string "0")).extraSpecs "VDU1" ⟨none, .empty⟩ = .ok specs
      ∧ List.Forall₂ (fun e n => Substitution.Reads ⟨none, .empty⟩ e.2 n)
        (twoNodes (.int 0) (.string "0")).numaNodes.entries (readNodes "0" "0")
      ∧ specs.get? "hw:numa_cpus.0" = some "2-3"
      ∧ ¬ MemoryNode.Described (readNodes "0" "0") specs := by
  have hget : ((twoNodes (.int 0) (.string "0")).extraSpecs "VDU1" ⟨none, .empty⟩).toOption.bind
      (·.get? "hw:numa_cpus.0") = some "2-3" := by
    decide +kernel
  rcases hs : (twoNodes (.int 0) (.string "0")).extraSpecs "VDU1" ⟨none, .empty⟩ with fault | specs
  · rw [hs] at hget
    cases hget
  rw [hs] at hget
  change specs.get? "hw:numa_cpus.0" = some "2-3" at hget
  refine ⟨specs, rfl, .cons ⟨_, rfl, by decide +kernel, rfl, rfl⟩
    (.cons ⟨_, rfl, rfl, rfl, by decide +kernel⟩ .nil), hget, fun hd => ?_⟩
  have hlost := hd.processors _ List.mem_cons_self "0-1" rfl
  exact absurd (hget.symm.trans hlost) (by decide)

end Capabilities

end Provision
