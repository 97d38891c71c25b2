import Provision.Proofs.Leaves
import Provision.Proofs.Dangling

/-!
# What substitution leaves

A placeholder stands in a leaf, and resolving the leaf replaces it. What a leaf is resolved to has
an object in it that reads like a placeholder only if the name of the input was itself given by one,
for what is put in place is not looked at again (`Substitution.assembles_of_awaits`). The values that
are taken over as properties keep what they had in them (`Property.awaits_of_ofValue`), and the extra
specs that capabilities ask for have no such names (`Capabilities.unnamed_extraSpecs`).
-/

namespace Provision

/-- An object that reads like a placeholder for the input stands somewhere in the value. -/
inductive Value.Awaits : Value → String → Prop
  | here (input : String) : Awaits (.single Leaf.inputKey (.string input)) input
  | item {x : Value} {xs : List Value} {input : String} :
    x ∈ xs → Awaits x input → Awaits (.list xs) input
  | member {m : String × Value} {ms : List (String × Value)} {input : String} :
    m ∈ ms → Awaits m.2 input → Awaits (.object ms) input

namespace Substitution

/-- Somewhere in the leaf a placeholder stands whose name is itself given by one, and is the
text. -/
inductive Assembles (s : Substitution) : Leaf → String → Prop
  | here {input text : String} : s.lookup input = .ok (.string text) →
    Assembles s (.map [(Leaf.inputKey, .input input)]) text
  | item {x : Leaf} {xs : List Leaf} {text : String} :
    x ∈ xs → Assembles s x text → Assembles s (.list xs) text
  | entry {e : String × Leaf} {es : List (String × Leaf)} {text : String} :
    e ∈ es → Assembles s e.2 text → Assembles s (.map es) text

/-- The one entry of the table reads like a placeholder for the text. -/
def ReadsAs (s : Substitution) (t : Table Leaf) (text : String) : Prop :=
  t.names = [Leaf.inputKey] ∧ ∃ l, t.get? Leaf.inputKey = some l ∧ s.resolve l = .ok (.string text)

/-- No input has a value with a placeholder in it. -/
def Plain (s : Substitution) : Prop :=
  ∀ name v, s.lookup name = .ok v → ∀ input, ¬v.Awaits input

end Substitution

/-! ## Values -/

namespace Value

variable {v x : Value} {xs : List Value} {ms : List (String × Value)} {key text : String}

/-- What is neither a list nor an object has no placeholder in it. -/
theorem Awaits.nested (h : v.Awaits text) : (∃ xs, v = .list xs) ∨ ∃ ms, v = .object ms := by
  rcases h with _ | _ | _
  · exact .inr ⟨_, rfl⟩
  · exact .inl ⟨_, rfl⟩
  · exact .inr ⟨_, rfl⟩

theorem not_awaits_string {t : String} : ¬(Value.string t).Awaits text := by
  rintro ⟨⟩

theorem not_awaits_ofFloat {x : Binary64} : ¬(ofFloat x).Awaits text := by
  intro h
  have hnested := h.nested
  rw [ofFloat] at hnested
  split_ifs at hnested <;> simp at hnested

theorem awaits_list : (Value.list xs).Awaits text ↔ ∃ x ∈ xs, x.Awaits text := by
  constructor
  · intro h
    cases h with
    | item hx h => exact ⟨_, hx, h⟩
  · rintro ⟨x, hx, h⟩
    exact .item hx h

theorem awaits_object : (Value.object ms).Awaits text
    ↔ ms = [(Leaf.inputKey, .string text)] ∨ ∃ m ∈ ms, m.2.Awaits text := by
  constructor
  · intro h
    generalize hv : Value.object ms = v at h
    cases h with
    | here =>
      cases hv
      exact .inl rfl
    | item => cases hv
    | member hm h =>
      cases hv
      exact .inr ⟨_, hm, h⟩
  · rintro (rfl | ⟨m, hm, h⟩)
    · exact .here text
    · exact .member hm h

theorem awaits_single (hkey : key ≠ Leaf.inputKey) :
    (single key x).Awaits text ↔ x.Awaits text := by
  simp [single, awaits_object, hkey]

theorem awaits_ofTable {t : Table Value} : (ofTable t).Awaits text
    ↔ t.entries = [(Leaf.inputKey, .string text)] ∨ ∃ k v, t.get? k = some v ∧ v.Awaits text := by
  rw [ofTable, awaits_object]
  refine or_congr_right ⟨?_, ?_⟩
  · rintro ⟨m, hm, h⟩
    exact ⟨m.1, m.2, Table.mem_entries.1 hm, h⟩
  · rintro ⟨k, v, hv, h⟩
    exact ⟨(k, v), Table.mem_entries.2 hv, h⟩

end Value

/-! ## Leaves -/

namespace Substitution

variable {s : Substitution} {text : String}

theorem of_resolve_ofInt {i : Int} {v : Value} (h : s.resolve (.ofInt i) = .ok v) :
    v = .int i ∨ ∃ x, v = Value.ofFloat x := by
  unfold Leaf.ofInt at h
  split_ifs at h
  · cases h
    exact .inl rfl
  · cases h
    exact .inr ⟨_, rfl⟩

/-- A leaf that is resolved to a text is that text, or an input. -/
theorem of_resolve_eq_string {w : Value} (h : s.resolve (.ofValue w) = .ok (.string text)) :
    w = .string text
      ∨ ∃ input, Leaf.ofValue w = .input input ∧ s.lookup input = .ok (.string text) := by
  have hfloat : ∀ x, Value.string text ≠ Value.ofFloat x := by
    intro x
    rw [Value.ofFloat]
    split_ifs
    · nofun
    · nofun
  rcases w with _ | _ | i | x | t | xs | ms
  · cases h
  · cases h
  · rcases of_resolve_ofInt h with heq | ⟨x, heq⟩
    · cases heq
    · exact absurd heq (hfloat x)
  · exact absurd (Except.ok.inj h).symm (hfloat x)
  · cases h
    exact .inl rfl
  · obtain ⟨vs, -, h⟩ := bind_eq_ok_iff.1 h
    cases h
  · rw [Leaf.ofValue] at h ⊢
    split at h
    · exact .inr ⟨_, rfl, h⟩
    · obtain ⟨vs, -, h⟩ := bind_eq_ok_iff.1 h
      cases h

/-- A mapping is resolved to something like a placeholder only if its one entry is an input that is
a text: if the entry were that text, the mapping would have been read as a placeholder. -/
theorem assembles_of_resolveEntries {ms : List (String × Value)} (hms : Leaf.inputOf? ms = none)
    (h : s.resolveEntries (Leaf.ofMembers ms) = .ok [(Leaf.inputKey, .string text)]) :
    s.Assembles (.map (Leaf.ofMembers ms)) text := by
  rcases ms with _ | ⟨⟨key, w⟩, ms⟩
  · cases h
  rw [Leaf.ofMembers, resolveEntries] at h
  obtain ⟨v, hv, h⟩ := bind_eq_ok_iff.1 h
  obtain ⟨vs, hvs, h⟩ := bind_eq_ok_iff.1 h
  cases h
  obtain rfl : ms = [] := by
    rcases ms with _ | ⟨m, ms⟩
    · rfl
    · obtain ⟨v, -, hvs⟩ := bind_eq_ok_iff.1 hvs
      obtain ⟨vs, -, hvs⟩ := bind_eq_ok_iff.1 hvs
      cases hvs
  rcases of_resolve_eq_string hv with rfl | ⟨input, hinput, hlookup⟩
  · simp [Leaf.inputOf?] at hms
  · rw [Leaf.ofMembers, Leaf.ofMembers, hinput]
    exact .here hlookup

mutual

/-- In the value of a leaf only assembled placeholders stand. -/
theorem assembles_of_awaits (hs : s.Plain) : ∀ {w v : Value}, s.resolve (.ofValue w) = .ok v →
    v.Awaits text → s.Assembles (.ofValue w) text
  | .null, v, h, hv | .bool _, v, h, hv | .string _, v, h, hv => by
    cases h
    simpa using hv.nested
  | .int i, v, h, hv => by
    rcases of_resolve_ofInt h with rfl | ⟨x, rfl⟩
    · simpa using hv.nested
    · exact absurd hv Value.not_awaits_ofFloat
  | .float x, v, h, hv => by
    cases h
    exact absurd hv Value.not_awaits_ofFloat
  | .list xs, v, h, hv => by
    rw [Leaf.ofValue, resolve] at h
    obtain ⟨vs, hvs, h⟩ := bind_eq_ok_iff.1 h
    cases h
    obtain ⟨x, hx, hawaits⟩ := Value.awaits_list.1 hv
    obtain ⟨l, hl, hassembles⟩ := assembles_of_awaits_items hs hvs hx hawaits
    exact .item hl hassembles
  | .object ms, v, h, hv => by
    rw [Leaf.ofValue] at h ⊢
    split at h
    · rw [resolve] at h
      exact absurd hv (hs _ v h text)
    · rename_i hnone
      rw [resolve] at h
      obtain ⟨vs, hvs, h⟩ := bind_eq_ok_iff.1 h
      cases h
      rcases Value.awaits_object.1 hv with rfl | ⟨m, hm, hawaits⟩
      · exact assembles_of_resolveEntries hnone hvs
      · obtain ⟨e, he, hassembles⟩ := assembles_of_awaits_members hs hvs hm hawaits
        exact .entry he hassembles

theorem assembles_of_awaits_items (hs : s.Plain) : ∀ {ws vs : List Value},
    s.resolveItems (Leaf.ofItems ws) = .ok vs → ∀ {x : Value}, x ∈ vs → x.Awaits text →
      ∃ l ∈ Leaf.ofItems ws, s.Assembles l text
  | [], vs, h, x, hx, _ => by
    cases h
    cases hx
  | w :: ws, vs, h, x, hx, hawaits => by
    rw [Leaf.ofItems, resolveItems] at h
    obtain ⟨v, hv, h⟩ := bind_eq_ok_iff.1 h
    obtain ⟨vs, hvs, h⟩ := bind_eq_ok_iff.1 h
    cases h
    rcases List.mem_cons.1 hx with rfl | hx
    · exact ⟨_, List.mem_cons_self, assembles_of_awaits hs hv hawaits⟩
    · obtain ⟨l, hl, hassembles⟩ := assembles_of_awaits_items hs hvs hx hawaits
      exact ⟨l, List.mem_cons_of_mem _ hl, hassembles⟩

theorem assembles_of_awaits_members (hs : s.Plain) : ∀ {ms vs : List (String × Value)},
    s.resolveEntries (Leaf.ofMembers ms) = .ok vs → ∀ {m : String × Value}, m ∈ vs →
      m.2.Awaits text → ∃ e ∈ Leaf.ofMembers ms, s.Assembles e.2 text
  | [], vs, h, m, hm, _ => by
    cases h
    cases hm
  | (k, w) :: ms, vs, h, m, hm, hawaits => by
    rw [Leaf.ofMembers, resolveEntries] at h
    obtain ⟨v, hv, h⟩ := bind_eq_ok_iff.1 h
    obtain ⟨vs, hvs, h⟩ := bind_eq_ok_iff.1 h
    cases h
    rcases List.mem_cons.1 hm with rfl | hm
    · exact ⟨_, List.mem_cons_self, assembles_of_awaits hs hv hawaits⟩
    · obtain ⟨e, he, hassembles⟩ := assembles_of_awaits_members hs hvs hm hawaits
      exact ⟨e, List.mem_cons_of_mem _ he, hassembles⟩

end

theorem readsAs_of_resolveTable {t : Table Leaf} {values : Table Value}
    (h : s.resolveTable t = .ok values)
    (hentries : values.entries = [(Leaf.inputKey, .string text)]) : s.ReadsAs t text := by
  obtain ⟨hnames, hvalues⟩ := Table.of_traverse h
  rw [Table.names, hentries] at hnames
  exact ⟨hnames.symm, hvalues _ _ (by rw [Table.get?, hentries]; rfl)⟩

theorem assembles_of_resolveTable (hs : s.Plain) {t : Table Leaf} {values : Table Value}
    (hread : ∀ key l, t.get? key = some l → l.IsRead) (h : s.resolveTable t = .ok values)
    {m : String × Value} (hm : m ∈ values.entries) (hawaits : m.2.Awaits text) :
    ∃ key l, t.get? key = some l ∧ s.Assembles l text := by
  obtain ⟨l, hl, hresolve⟩ := (Table.of_traverse h).2 m.1 m.2 (Table.mem_entries.1 hm)
  obtain ⟨w, rfl⟩ := hread m.1 l hl
  exact ⟨m.1, _, hl, assembles_of_awaits hs hresolve hawaits⟩

end Substitution

/-! ## Properties -/

namespace Property

variable {text : String}

theorem awaits_map {es : List (String × Property)} : (Property.map es).toValue.Awaits text
    ↔ toMembers es = [(Leaf.inputKey, .string text)] ∨ ∃ e ∈ es, e.2.toValue.Awaits text := by
  rw [toValue, Value.awaits_object, toMembers_eq_map]
  simp only [List.mem_map, exists_exists_and_eq_and]

theorem awaits_list {xs : List Property} (h : (Property.list xs).toValue.Awaits text) :
    ∃ x ∈ xs, x.toValue.Awaits text := by
  rw [toValue, Value.awaits_list, toItems_eq_map] at h
  obtain ⟨v, hv, hawaits⟩ := h
  obtain ⟨x, hx, rfl⟩ := List.mem_map.1 hv
  exact ⟨x, hx, hawaits⟩

theorem awaits_single {key : String} {p : Property} (hkey : key ≠ Leaf.inputKey)
    (h : (single key p).toValue.Awaits text) : p.toValue.Awaits text := by
  rw [single, toValue, toMembers, toMembers] at h
  exact (Value.awaits_single hkey).1 h

theorem not_awaits_resource {name : String} : ¬(Property.resource name).toValue.Awaits text :=
  fun h => Value.not_awaits_string ((Value.awaits_single (by decide)).1 h)

mutual

/-- A value that is taken over has the placeholders in it that it had. -/
theorem awaits_of_ofValue : ∀ {v : Value}, (ofValue v).toValue.Awaits text → v.Awaits text
  | .null, h | .bool _, h | .string _, h => h
  | .int i, h => by
    rw [ofValue, ofInt] at h
    split_ifs at h
    · exact h
    · exact absurd h Value.not_awaits_ofFloat
  | .float _, h => absurd h Value.not_awaits_ofFloat
  | .list xs, h => by
    obtain ⟨p, hp, hawaits⟩ := awaits_list h
    obtain ⟨x, hx, hx'⟩ := awaits_of_ofItems hp hawaits
    exact .item hx hx'
  | .object ms, h => by
    by_cases href : (Value.object ms).IsReference
    · obtain ⟨p, hp, heq⟩ := ofValue_object_of_isReference href
      rwa [heq, toValue_of_referenceOf? hp] at h
    · rw [ofValue_object_of_not_isReference href] at h
      rcases awaits_map.1 h with hsingle | ⟨e, he, hawaits⟩
      · obtain ⟨v, rfl, hv⟩ := eq_single_of_again hsingle
        rw [eq_string_of_toValue_ofValue hv]
        exact .here text
      · obtain ⟨m, hm, hm'⟩ := awaits_of_ofMembers he hawaits
        exact .member hm hm'

theorem awaits_of_ofItems : ∀ {xs : List Value} {p : Property}, p ∈ ofItems xs →
    p.toValue.Awaits text → ∃ x ∈ xs, x.Awaits text
  | [], _, hp, _ => by cases hp
  | x :: xs, p, hp, h => by
    rw [ofItems] at hp
    rcases List.mem_cons.1 hp with rfl | hp
    · exact ⟨x, List.mem_cons_self, awaits_of_ofValue h⟩
    · obtain ⟨y, hy, hy'⟩ := awaits_of_ofItems hp h
      exact ⟨y, List.mem_cons_of_mem _ hy, hy'⟩

theorem awaits_of_ofMembers : ∀ {ms : List (String × Value)} {e : String × Property},
    e ∈ ofMembers ms → e.2.toValue.Awaits text → ∃ m ∈ ms, m.2.Awaits text
  | [], _, he, _ => by cases he
  | (k, v) :: ms, e, he, h => by
    rw [ofMembers] at he
    rcases List.mem_cons.1 he with rfl | he
    · exact ⟨(k, v), List.mem_cons_self, awaits_of_ofValue h⟩
    · obtain ⟨m, hm, hm'⟩ := awaits_of_ofMembers he h
      exact ⟨m, List.mem_cons_of_mem _ hm, hm'⟩

end

/-- A table of values that reads like a placeholder once its values are taken over reads like one
before. -/
theorem entries_of_again {t : Table Value}
    (h : toMembers (t.map fun _ v => ofValue v).entries = [(Leaf.inputKey, .string text)]) :
    t.entries = [(Leaf.inputKey, .string text)] := by
  rw [show (t.map fun _ v => ofValue v).entries = ofMembers t.entries from
    (ofMembers_eq_map _).symm] at h
  obtain ⟨v, hentries, hv⟩ := eq_single_of_again h
  rw [hentries, eq_string_of_toValue_ofValue hv]

end Property

/-! ## Extra specs -/

/-- No extra spec is named like a placeholder. -/
def Unnamed (specs : Table String) : Prop := specs.get? Leaf.inputKey = none

theorem Unnamed.put {specs : Table String} {key text : String} (h : Unnamed specs)
    (hkey : Leaf.inputKey ≠ key) : Unnamed (specs.put key text) :=
  (Table.get?_put.trans (if_neg hkey)).trans h

theorem inputKey_ne_append {mark rest : String} (h : mark.toList.head? = some 'h') :
    Leaf.inputKey ≠ mark ++ rest := by
  intro heq
  have hhead := congrArg (fun key => key.toList.head?) heq
  simp [String.toList_append, h, Leaf.inputKey] at hhead

namespace Capabilities

variable {compute name : String} {s : Substitution} {specs specs' : Table String}

theorem unnamed_addNumaNode {node : Table Leaf} (hspecs : Unnamed specs)
    (h : addNumaNode compute s specs name node = .ok specs') : Unnamed specs' := by
  obtain ⟨values, -, h⟩ := bind_eq_ok_iff.1 h
  extract_lets rest identified at h
  have hrest : ∀ id, rest id = .ok specs' → Unnamed specs' := by
    intro id h
    unfold rest at h
    extract_lets placed at h
    have hplaced : Unnamed placed := by
      unfold placed
      split
      · exact hspecs.put (inputKey_ne_append rfl)
      · exact hspecs
    split at h
    · rw [← Except.ok.inj h]
      exact hplaced
    · split at h
      · rw [← Except.ok.inj h]
        exact hplaced.put (inputKey_ne_append rfl)
      · cases h
  split at h
  · cases h
  · unfold identified at h
    split at h
    · exact hrest _ h
    · cases h

theorem unnamed_addNumaNodes {nodes : List (String × Table Leaf)} (hspecs : Unnamed specs)
    (h : addNumaNodes compute s nodes specs = .ok specs') : Unnamed specs' := by
  induction nodes generalizing specs with
  | nil =>
    cases h
    exact hspecs
  | cons e nodes ih =>
    obtain ⟨specs₁, hfirst, h⟩ := bind_eq_ok_iff.1 h
    exact ih (unnamed_addNumaNode hspecs hfirst) h

theorem inputKey_ne_cpuSpec {key spec : String} (h : cpuSpec? key = some spec) :
    Leaf.inputKey ≠ spec := by
  unfold cpuSpec? at h
  split at h <;> cases h <;> decide

theorem unnamed_addCpuAllocation {allocation : List (String × Value)} (hspecs : Unnamed specs)
    (h : addCpuAllocation compute allocation specs = .ok specs') : Unnamed specs' := by
  induction allocation generalizing specs with
  | nil =>
    cases h
    exact hspecs
  | cons e allocation ih =>
    rw [addCpuAllocation] at h
    split at h
    · rename_i spec hspec
      exact ih (hspecs.put (inputKey_ne_cpuSpec hspec)) h
    · cases h

theorem unnamed_extraSpecs {caps : Capabilities} (h : caps.extraSpecs compute s = .ok specs) :
    Unnamed specs := by
  obtain ⟨page, -, h⟩ := bind_eq_ok_iff.1 h
  -- What follows the page size, from the last step on.
  extract_lets allocation nodes at h
  have hallocation : ∀ before, Unnamed before → allocation before = .ok specs → Unnamed specs := by
    intro before hbefore h
    obtain ⟨values, -, h⟩ := bind_eq_ok_iff.1 h
    exact unnamed_addCpuAllocation hbefore h
  have hnodes : ∀ before, Unnamed before → nodes before = .ok specs → Unnamed specs := by
    intro before hbefore h
    obtain ⟨count, -, h⟩ := bind_eq_ok_iff.1 h
    split at h
    · exact hallocation _ (hbefore.put (by decide)) h
    · split at h
      · exact hallocation _ hbefore h
      · obtain ⟨counted, hcounted, h⟩ := bind_eq_ok_iff.1 h
        exact hallocation _ ((unnamed_addNumaNodes hbefore hcounted).put (by decide)) h
  have hempty : Unnamed .empty := rfl
  split at h
  · obtain ⟨text, -, h⟩ := bind_eq_ok_iff.1 h
    exact hnodes _ (hempty.put (by decide)) h
  · exact hnodes _ hempty h

end Capabilities

/-- A placeholder among the extra specs of a flavor has been configured. -/
theorem of_extend_specs {specs configured : Table String} {text : String} (hspecs : Unnamed specs)
    (h : Property.toMembers ((specs.extend configured).map fun _ t => .string t).entries
      = [(Leaf.inputKey, .string text)]) : configured.get? Leaf.inputKey = some text := by
  have hmem : (Leaf.inputKey, Value.string text) ∈ Property.toMembers
      ((specs.extend configured).map fun _ t => Property.string t).entries :=
    h ▸ List.mem_singleton_self _
  rw [Property.toMembers_eq_map] at hmem
  obtain ⟨e, he, heq⟩ := List.mem_map.1 hmem
  obtain ⟨m, hm, rfl⟩ := List.mem_map.1 he
  obtain ⟨hkey, htext⟩ := Prod.mk.inj heq
  have hget := Table.mem_entries.1 hm
  rwa [hkey, Value.string.inj htext, Table.get?_extend, hspecs, Option.or_none] at hget

end Provision
