import Provision.Graph.Template
import Provision.Proofs.Documents
import Provision.Proofs.Validity

/-!
# Submissions of nested graphs

A value that is written over several lines reads back as itself exactly if its numerals say what its
numbers are, its names are in order and it is not nested too deeply (`readValue_pretty_iff`). A
submission carries the texts of the graphs nested directly, each of which reads back under these
conditions, and of no others: so it lacks whatever is nested only further down
(`toSubmission_files`).
-/

namespace Provision

/-- The numeral of every number in the value says what the number is. That of a whole number does
if the number fits sixty-four bits. -/
inductive Value.Spelled : Value → Prop
  | null : Spelled .null
  | bool (b : Bool) : Spelled (.bool b)
  | int {i : Int} : Binary64.int64Min ≤ i → i < Nat.pow 2 64 → Spelled (.int i)
  | float {x : Binary64} : x.isFinite = true →
    Json.spelt (Json.float x).toList = some (.float x) → Spelled (.float x)
  | string (s : String) : Spelled (.string s)
  | list {xs : List Value} : (∀ x ∈ xs, Spelled x) → Spelled (.list xs)
  | object {ms : List (String × Value)} : (∀ m ∈ ms, Spelled m.2) → Spelled (.object ms)

namespace Value

theorem spelled_int {i : Int} :
    (Value.int i).Spelled ↔ Binary64.int64Min ≤ i ∧ i < Nat.pow 2 64 :=
  ⟨fun | .int hlow hhigh => ⟨hlow, hhigh⟩, fun h => .int h.1 h.2⟩

theorem spelled_list {xs : List Value} : (Value.list xs).Spelled ↔ ∀ x ∈ xs, x.Spelled :=
  ⟨fun | .list h => h, .list⟩

theorem spelled_object {ms : List (String × Value)} :
    (Value.object ms).Spelled ↔ ∀ m ∈ ms, m.2.Spelled :=
  ⟨fun | .object h => h, .object⟩

end Value

namespace Json

/-! ## Values that read back -/

section Respelling

variable {v w : Value}

theorem ofScalar_eq_int {m : Scalar} {i : Int} : ofScalar m = .int i ↔ m = .int i := by
  cases m <;> simp [ofScalar]

theorem ofScalar_eq_float {m : Scalar} {x : Binary64} : ofScalar m = .float x ↔ m = .float x := by
  cases m <;> simp [ofScalar]

theorem respell_int_iff {i : Int} : respell (.int i) = some (.int i) ↔
    Binary64.int64Min ≤ i ∧ i < Nat.pow 2 64 := by
  rw [respell, ← spelt_ofInt_iff]
  simp only [Option.map_eq_some_iff, ofScalar_eq_int, exists_eq_right]

theorem respell_float_iff {x : Binary64} : respell (.float x) = some (.float x) ↔
    x.isFinite = true ∧ spelt (float x).toList = some (.float x) := by
  rw [respell]
  split
  · rename_i hx
    simp only [Option.map_eq_some_iff, ofScalar_eq_float, exists_eq_right, hx, true_and]
  · rename_i hx
    simp [hx]

mutual

/-- Spelling a value anew leaves it as it is exactly if every numeral says what its number is. -/
theorem respell_eq_self_iff : ∀ {v : Value}, respell v = some v ↔ v.Spelled
  | .null => iff_of_true rfl .null
  | .bool b => iff_of_true rfl (.bool b)
  | .string s => iff_of_true rfl (.string s)
  | .int i => respell_int_iff.trans ⟨fun h => .int h.1 h.2, fun | .int hlow hhigh => ⟨hlow, hhigh⟩⟩
  | .float x =>
    respell_float_iff.trans ⟨fun h => .float h.1 h.2, fun | .float hx hs => ⟨hx, hs⟩⟩
  | .list xs => by
    rw [respell]
    simp only [Option.map_eq_some_iff, Value.list.injEq, exists_eq_right]
    exact respellItems_eq_self_iff.trans ⟨.list, fun | .list h => h⟩
  | .object ms => by
    rw [respell]
    simp only [Option.map_eq_some_iff, Value.object.injEq, exists_eq_right]
    exact respellMembers_eq_self_iff.trans ⟨.object, fun | .object h => h⟩

theorem respellItems_eq_self_iff : ∀ {xs : List Value},
    respellItems xs = some xs ↔ ∀ x ∈ xs, x.Spelled
  | [] => iff_of_true rfl (by simp)
  | x :: xs => by
    rw [List.forall_mem_cons, ← respell_eq_self_iff, ← respellItems_eq_self_iff]
    constructor
    · intro h
      obtain ⟨v, vs, hv, hvs, heq⟩ := respellItems_cons h
      cases heq
      exact ⟨hv, hvs⟩
    · rintro ⟨hx, hxs⟩
      rw [respellItems, hx, hxs]
      rfl

theorem respellMembers_eq_self_iff : ∀ {ms : List (String × Value)},
    respellMembers ms = some ms ↔ ∀ m ∈ ms, m.2.Spelled
  | [] => iff_of_true rfl (by simp)
  | (k, x) :: ms => by
    rw [List.forall_mem_cons, ← respell_eq_self_iff, ← respellMembers_eq_self_iff]
    constructor
    · intro h
      obtain ⟨v, vs, hv, hvs, heq⟩ := respellMembers_cons h
      cases heq
      exact ⟨hv, hvs⟩
    · rintro ⟨hx, hms⟩
      rw [respellMembers, hx, hms]
      rfl

end

theorem names_respellMembers : ∀ {ms ns : List (String × Value)}, respellMembers ms = some ns →
    Entries.names ns = Entries.names ms
  | [], _, h => by
    cases h
    rfl
  | (k, x) :: ms, _, h => by
    obtain ⟨v, vs, -, hvs, rfl⟩ := respellMembers_cons h
    exact congrArg (k :: ·) (names_respellMembers hvs)

theorem names_readMembers : ∀ {ms ns : List (String × Value)},
    (ms.mapM fun m => (Node.ofValue m.2).value?.map fun v => (m.1, v)) = some ns →
      Entries.names ns = Entries.names ms
  | [], _, h => by
    cases h
    rfl
  | (k, x) :: ms, _, h => by
    rw [List.mapM_cons] at h
    obtain ⟨n, hn, h⟩ := Option.bind_eq_some_iff.1 h
    obtain ⟨ns, hns, h⟩ := Option.bind_eq_some_iff.1 h
    obtain ⟨v, -, rfl⟩ := Option.map_eq_some_iff.1 hn
    cases h
    exact congrArg (k :: ·) (names_readMembers hns)

theorem value?_ofScalar {m : Scalar} (h : (Node.ofValue (ofScalar m)).value? = some v)
    (hv : v ≠ .null) : ofScalar m = v := by
  rcases m with _ | _ | j | y | _
  case int =>
    rw [ofScalar, Node.ofValue, Node.value?, Node.scalarValue?] at h
    split at h
    · exact Option.some.inj h
    · cases h
  case float =>
    -- A number that is not finite reads as nothing, and nothing else does.
    rw [ofScalar, Node.ofValue, Node.value?, Node.scalarValue?, Value.ofFloat] at h
    split at h
    · exact Option.some.inj h
    · exact absurd (Option.some.inj h).symm hv
  all_goals exact Option.some.inj h

mutual

/-- If the value that is spelt reads as the value that was written, the two are one, and its names
are in order. -/
theorem eq_of_respell : ∀ {v w : Value}, respell v = some w → (Node.ofValue w).value? = some v →
    w = v ∧ v.Ordered
  | .null, _, h, _ | .bool _, _, h, _ | .string _, _, h, _ => by
    cases h
    exact ⟨rfl, trivial⟩
  | .int i, w, h, hv => by
    obtain ⟨m, -, rfl⟩ := Option.map_eq_some_iff.1 h
    exact ⟨value?_ofScalar hv nofun, trivial⟩
  | .float x, w, h, hv => by
    rw [respell] at h
    split at h
    · obtain ⟨m, -, rfl⟩ := Option.map_eq_some_iff.1 h
      exact ⟨value?_ofScalar hv nofun, trivial⟩
    · cases h
      cases hv
  | .list xs, w, h, hv => by
    obtain ⟨ys, hys, rfl⟩ := Option.map_eq_some_iff.1 h
    rw [Node.value?_list] at hv
    obtain ⟨zs, hzs, heq⟩ := Option.map_eq_some_iff.1 hv
    cases heq
    obtain ⟨rfl, ho⟩ := eq_of_respellItems hys hzs
    exact ⟨rfl, Value.ordered_list.2 ho⟩
  | .object ms, w, h, hv => by
    obtain ⟨ns, hns, rfl⟩ := Option.map_eq_some_iff.1 h
    rw [Node.value?_object] at hv
    obtain ⟨us, hus, heq⟩ := Option.map_eq_some_iff.1 hv
    have hms : Entries.ofList us = ms := Value.object.inj heq
    have ha : Ascending (Entries.names ms) := hms ▸ Entries.ascending_ofList us
    -- The names that are read are those that were written, so no entry is moved or dropped.
    rw [Entries.ofList_of_ascending
      (by rwa [names_readMembers hus, names_respellMembers hns])] at hms
    subst hms
    obtain ⟨rfl, ho⟩ := eq_of_respellMembers hns hus
    exact ⟨rfl, Value.ordered_object.2 ⟨ha, ho⟩⟩

theorem eq_of_respellItems : ∀ {xs ys : List Value}, respellItems xs = some ys →
    (ys.mapM fun y => (Node.ofValue y).value?) = some xs → ys = xs ∧ ∀ x ∈ xs, x.Ordered
  | [], _, h, _ => by
    cases h
    exact ⟨rfl, by simp⟩
  | x :: xs, _, h, hv => by
    obtain ⟨y, ys, hy, hys, rfl⟩ := respellItems_cons h
    rw [List.mapM_cons] at hv
    obtain ⟨x', hx, hv⟩ := Option.bind_eq_some_iff.1 hv
    obtain ⟨xs', hxs, hv⟩ := Option.bind_eq_some_iff.1 hv
    cases hv
    obtain ⟨rfl, ho⟩ := eq_of_respell hy hx
    obtain ⟨rfl, hos⟩ := eq_of_respellItems hys hxs
    exact ⟨rfl, List.forall_mem_cons.2 ⟨ho, hos⟩⟩

theorem eq_of_respellMembers : ∀ {ms ns : List (String × Value)}, respellMembers ms = some ns →
    (ns.mapM fun n => (Node.ofValue n.2).value?.map fun v => (n.1, v)) = some ms →
      ns = ms ∧ ∀ m ∈ ms, m.2.Ordered
  | [], _, h, _ => by
    cases h
    exact ⟨rfl, by simp⟩
  | (k, x) :: ms, _, h, hv => by
    obtain ⟨y, ns, hy, hns, rfl⟩ := respellMembers_cons h
    rw [List.mapM_cons] at hv
    obtain ⟨n, hn, hv⟩ := Option.bind_eq_some_iff.1 hv
    obtain ⟨ms', hms, hv⟩ := Option.bind_eq_some_iff.1 hv
    obtain ⟨x', hx, rfl⟩ := Option.map_eq_some_iff.1 hn
    cases hv
    obtain ⟨rfl, ho⟩ := eq_of_respell hy hx
    obtain ⟨rfl, hos⟩ := eq_of_respellMembers hns hms
    exact ⟨rfl, List.forall_mem_cons.2 ⟨ho, hos⟩⟩

end

end Respelling

end Json

theorem Value.Spelled.fits {v : Value} (h : v.Spelled) : v.Fits := by
  induction h with
  | null => exact .null
  | bool b => exact .bool b
  | int hlow hhigh => exact .int hlow hhigh
  | float hx _ => exact .float hx
  | string s => exact .string s
  | list _ ih => exact .list ih
  | object _ ih => exact .object ih

namespace Json

/-- A value that is written over several lines reads back as itself exactly if its numerals say what
its numbers are, its names are in order, and it is nested no deeper than a reader follows. -/
theorem readValue_pretty_iff {v : Value} : readValue (pretty v) = some v ↔
    v.Spelled ∧ v.Ordered ∧ (Node.ofValue v).depth ≤ depthLimit := by
  have hread : readValue (pretty v) = (read (pretty v)).bind Node.value? := rfl
  rw [hread, read_pretty_eq, ← respell_eq_self_iff]
  constructor
  · intro h
    obtain ⟨n, hn, hv⟩ := Option.bind_eq_some_iff.1 h
    obtain ⟨w, hw, hn⟩ := Option.bind_eq_some_iff.1 hn
    split at hn
    · rename_i hd
      cases hn
      obtain ⟨rfl, ho⟩ := eq_of_respell hw hv
      exact ⟨hw, ho, hd⟩
    · cases hn
  · rintro ⟨hs, ho, hd⟩
    rw [hs, Option.bind_some, if_pos hd]
    exact Node.value?_ofValue (respell_eq_self_iff.1 hs).fits ho

end Json

namespace ResourceGraph

/-- A graph is nested under a file name, in the graph itself or further down. -/
def NestsAs (g : ResourceGraph) (name : String) (nested : ResourceGraph) : Prop :=
  ∃ host : ResourceGraph, host.NestedIn g ∧ (name, nested) ∈ host.files

/-- The texts of a submission are those of the graphs nested directly. So it holds one for every
name that a graph is nested under at any depth exactly if every such name also stands for a graph
nested directly; and each text reads back as the template of the graph exactly if the template can
be read back from what is written. -/
theorem toSubmission_files (g : ResourceGraph) (stackName : String) :
    ((∀ name nested, g.NestsAs name nested →
        (g.toSubmission stackName).files.contains name = true) ↔
      ∀ name nested, g.NestsAs name nested → ∃ direct, (name, direct) ∈ g.files)
    ∧ (∀ name, (g.toSubmission stackName).files.contains name = true ↔
        ∃ nested, (name, nested) ∈ g.files)
    ∧ ∀ name text, (g.toSubmission stackName).files.get? name = some text →
        ∃ nested, (name, nested) ∈ g.files ∧ text = Json.pretty nested.toTemplate
          ∧ (Json.readValue text = some nested.toTemplate ↔
            nested.toTemplate.Spelled ∧ nested.toTemplate.Ordered
              ∧ (Node.ofValue nested.toTemplate).depth ≤ Json.depthLimit) := by
  have htext : ∀ name text, (g.toSubmission stackName).files.get? name = some text →
      ∃ nested, (name, nested) ∈ g.files ∧ text = Json.pretty nested.toTemplate := by
    intro name text h
    have hmem := Entries.mem_of_mem_ofList (Table.mem_entries.2 h)
    obtain ⟨⟨file, nested⟩, hfile, heq⟩ := List.mem_map.1 hmem
    cases heq
    exact ⟨nested, hfile, rfl⟩
  have hnames : ∀ name, (g.toSubmission stackName).files.contains name = true ↔
      ∃ nested, (name, nested) ∈ g.files := by
    intro name
    refine Table.contains_ofList.trans ?_
    simp
  refine ⟨?_, hnames, fun name text h => ?_⟩
  · simp only [hnames]
  · obtain ⟨nested, hfile, rfl⟩ := htext name text h
    exact ⟨nested, hfile, rfl, Json.readValue_pretty_iff⟩

/-- A graph that nests a graph that nests another one. -/
def nestsTwice : ResourceGraph :=
  empty.addFile "a.yaml" (empty.addFile "b.yaml" empty)

theorem nestsTwice_incomplete : nestsTwice.validate = .ok () ∧ nestsTwice.NestsAs "b.yaml" empty
    ∧ (nestsTwice.toSubmission "stack").files.contains "b.yaml" = false := by
  refine ⟨?_, ⟨empty.addFile "b.yaml" empty, .file List.mem_cons_self (.self _),
    List.mem_cons_self⟩, by decide +kernel⟩
  have hsound : nestsTwice.validate.toBool = true := by decide +kernel
  rcases hv : nestsTwice.validate with fault | u
  · rw [hv] at hsound
    cases hsound
  · rfl

end ResourceGraph

end Provision
