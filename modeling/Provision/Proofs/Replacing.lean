import Provision.Proofs.Redescribing
import Provision.Proofs.Settled
import Provision.Proofs.Substituting

/-!
# What substitution replaces

A JSON value is read as a leaf, the inputs of the leaf are collected, and the leaf is resolved: three
recursions that have to agree at every depth. `Value.Filled` says on JSON values alone what comes of
them, in a single pass: an object that reads like a placeholder gives way to a value of its input,
which is not looked at again, and everything else stays where it is. A value is resolved to exactly
what fills it, and fails to be exactly if a placeholder stands in it whose input has no value
(`resolve_exact`).
-/

namespace Provision

namespace Value

/-- All numbers of the value are such as leaves hold: whole ones of sixty-four bits with a sign, and
others that are finite. -/
inductive FitsLeaf : Value → Prop
  | null : FitsLeaf .null
  | bool (b : Bool) : FitsLeaf (.bool b)
  | int {i : Int} : Binary64.int64Min ≤ i → i ≤ Binary64.int64Max → FitsLeaf (.int i)
  | float {x : Binary64} : x.isFinite = true → FitsLeaf (.float x)
  | string (s : String) : FitsLeaf (.string s)
  | list {xs : List Value} : (∀ x ∈ xs, x.FitsLeaf) → FitsLeaf (.list xs)
  | object {ms : List (String × Value)} : (∀ m ∈ ms, m.2.FitsLeaf) → FitsLeaf (.object ms)

/-- The second value is the first one with every placeholder replaced by a value that its input is
given. Whatever that value is, it is put in place as it is. -/
inductive Filled (Given : String → Value → Prop) : Value → Value → Prop
  | placeholder {input : String} {v : Value} : Given input v →
    Filled Given (.single Leaf.inputKey (.string input)) v
  | atom {v : Value} : (∀ xs, v ≠ .list xs) → (∀ ms, v ≠ .object ms) → Filled Given v v
  | list {xs ys : List Value} : List.Forall₂ (Filled Given) xs ys →
    Filled Given (.list xs) (.list ys)
  | object {ms ns : List (String × Value)} :
    (∀ input, Value.object ms ≠ .single Leaf.inputKey (.string input)) →
    Entries.names ns = Entries.names ms →
    List.Forall₂ (Filled Given) (ms.map Prod.snd) (ns.map Prod.snd) →
    Filled Given (.object ms) (.object ns)

variable {Given : String → Value → Prop} {v w : Value}

theorem filled_placeholder {input : String} :
    Filled Given (single Leaf.inputKey (.string input)) w ↔ Given input w := by
  constructor
  · intro h
    generalize hv : single Leaf.inputKey (.string input) = v at h
    cases h with
    | placeholder h =>
      cases hv
      exact h
    | atom _ hobject => exact absurd hv.symm (hobject _)
    | list => cases hv
    | object hplain _ _ => exact absurd hv.symm (hplain input)
  · exact .placeholder

theorem filled_atom (hlist : ∀ xs, v ≠ .list xs) (hobject : ∀ ms, v ≠ .object ms) :
    Filled Given v w ↔ w = v := by
  constructor
  · intro h
    cases h with
    | placeholder => exact absurd rfl (hobject _)
    | atom => rfl
    | list => exact absurd rfl (hlist _)
    | object => exact absurd rfl (hobject _)
  · rintro rfl
    exact .atom hlist hobject

theorem filled_list {xs : List Value} : Filled Given (.list xs) w ↔
    ∃ ys, List.Forall₂ (Filled Given) xs ys ∧ w = .list ys := by
  constructor
  · intro h
    cases h with
    | atom hlist _ => exact absurd rfl (hlist _)
    | list h => exact ⟨_, h, rfl⟩
  · rintro ⟨ys, h, rfl⟩
    exact .list h

theorem filled_object {ms : List (String × Value)} (hms : Leaf.inputOf? ms = none) :
    Filled Given (.object ms) w ↔ ∃ ns, (Entries.names ns = Entries.names ms
      ∧ List.Forall₂ (Filled Given) (ms.map Prod.snd) (ns.map Prod.snd)) ∧ w = .object ns := by
  have hplain : ∀ input, Value.object ms ≠ .single Leaf.inputKey (.string input) := by
    intro input heq
    rw [Leaf.inputOf?_eq_some_iff.2 (Value.object.inj heq)] at hms
    cases hms
  constructor
  · intro h
    generalize hv : Value.object ms = v at h
    cases h with
    | placeholder => exact absurd hv (hplain _)
    | atom _ hobject => exact absurd hv.symm (hobject _)
    | list => cases hv
    | object _ hnames h =>
      cases hv
      exact ⟨_, ⟨hnames, h⟩, rfl⟩
  · rintro ⟨ns, ⟨hnames, h⟩, rfl⟩
    exact .object hplain hnames h

end Value

/-! ## The inputs collected -/

namespace Leaf

theorem not_mentions_ofInt {i : Int} {input : String} : ¬(ofInt i).Mentions input := by
  unfold ofInt
  split_ifs
  · rintro ⟨⟩
  · rintro ⟨⟩

mutual

/-- The leaf mentions an input exactly if a placeholder for it stands in the value it is read
from. -/
theorem mentions_ofValue {input : String} :
    ∀ {v : Value}, (ofValue v).Mentions input ↔ v.Awaits input
  | .null | .bool _ | .float _ | .string _ => by
    constructor
    · rintro ⟨⟩
    · rintro ⟨⟩
  | .int i => by
    refine iff_of_false not_mentions_ofInt ?_
    rintro ⟨⟩
  | .list xs => by
    rw [ofValue, Value.awaits_list, ← mentions_ofItems]
    constructor
    · rintro ⟨⟩
      exact ⟨_, ‹_›, ‹_›⟩
    · rintro ⟨x, hx, h⟩
      exact .item hx h
  | .object ms => by
    rw [ofValue, Value.awaits_object]
    rcases hms : inputOf? ms with _ | name
    · have hne : ms ≠ [(inputKey, .string input)] := by
        rintro rfl
        rw [inputOf?_eq_some_iff.2 rfl] at hms
        cases hms
      rw [or_iff_right hne, ← mentions_ofMembers]
      constructor
      · rintro ⟨⟩
        exact ⟨_, ‹_›, ‹_›⟩
      · rintro ⟨⟨key, x⟩, he, h⟩
        exact .entry he h
    · obtain rfl := inputOf?_eq_some_iff.1 hms
      constructor
      · rintro ⟨⟩
        exact .inl rfl
      · rintro (heq | ⟨m, hm, h⟩)
        · cases heq
          exact .input input
        · obtain rfl := List.mem_singleton.1 hm
          exact absurd h Value.not_awaits_string

theorem mentions_ofItems {input : String} : ∀ {xs : List Value},
    (∃ l ∈ ofItems xs, l.Mentions input) ↔ ∃ x ∈ xs, x.Awaits input
  | [] => by simp [ofItems]
  | x :: xs => by
    rw [ofItems, List.exists_mem_cons_iff, List.exists_mem_cons_iff, mentions_ofValue,
      mentions_ofItems]

theorem mentions_ofMembers {input : String} : ∀ {ms : List (String × Value)},
    (∃ e ∈ ofMembers ms, e.2.Mentions input) ↔ ∃ m ∈ ms, m.2.Awaits input
  | [] => by simp [ofMembers]
  | (k, v) :: ms => by
    rw [ofMembers, List.exists_mem_cons_iff, List.exists_mem_cons_iff, mentions_ofValue,
      mentions_ofMembers]

end

theorem mem_names_ofNames_inputList {l : Leaf} {input : String} :
    input ∈ (NameSet.ofNames l.inputList).names ↔ l.Mentions input := by
  rw [NameSet.mem_names_ofNames, mem_inputList]

end Leaf

/-! ## What is put in place -/

namespace Substitution

variable {s : Substitution} {input : String}

/-- The value of the input: what the parameters have under its name, nothing included, and only if
they have no such entry the default that is declared for it. -/
inductive Gives (s : Substitution) (input : String) : Value → Prop
  | entry {table : Parameters} {v : Value} : s.parameters = some table →
    table.get? input = some v → Gives s input v
  | default {decl : InputDecl} {v : Value} :
    (∀ table, s.parameters = some table → table.get? input = none) →
    s.inputs.get? input = some decl → decl.default? = some v → Gives s input v

theorem lookup_eq_ok_iff {v : Value} : s.lookup input = .ok v ↔ s.Gives input v := by
  unfold lookup
  rcases hentry : s.parameters.bind fun table => table.get? input with _ | w
  · have hnone : ∀ table, s.parameters = some table → table.get? input = none :=
      fun table htable => Option.bind_eq_none_iff.1 hentry table htable
    dsimp only
    constructor
    · intro h
      split at h
      · rename_i w hw
        cases h
        obtain ⟨decl, hdecl, hdefault⟩ := Option.bind_eq_some_iff.1 hw
        exact .default hnone hdecl hdefault
      · cases h
    · rintro (⟨htable, hv⟩ | ⟨-, hdecl, hv⟩)
      · rw [hnone _ htable] at hv
        cases hv
      · rw [hdecl, Option.bind_some, hv]
  · obtain ⟨table, htable, hw⟩ := Option.bind_eq_some_iff.1 hentry
    dsimp only
    constructor
    · intro h
      cases h
      exact .entry htable hw
    · rintro (⟨htable', hv⟩ | ⟨hnone, -, -⟩)
      · obtain rfl := Option.some.inj (htable.symm.trans htable')
        exact congrArg _ (Option.some.inj (hw.symm.trans hv))
      · rw [hnone table htable] at hw
        cases hw

theorem hasValue_iff_gives : s.HasValue input ↔ ∃ v, s.Gives input v := by
  simp only [HasValue, lookup_eq_ok_iff]

theorem resolve_ofInt {i : Int} (hlow : Binary64.int64Min ≤ i) (hhigh : i ≤ Binary64.int64Max) :
    s.resolve (.ofInt i) = .ok (.int i) := by
  rw [Leaf.ofInt, if_pos ⟨hlow, hhigh⟩, resolve]

theorem ok_eq_ok_iff {α : Type} {a b : α} : (.ok a : Except Fault α) = .ok b ↔ b = a := by
  rw [Except.ok.injEq, eq_comm]

theorem ok_eq_ok_iff_filled {v w : Value} (hlist : ∀ xs, v ≠ .list xs)
    (hobject : ∀ ms, v ≠ .object ms) :
    (.ok v : Except Fault Value) = .ok w ↔ Value.Filled s.Gives v w := by
  rw [Value.filled_atom hlist hobject, ok_eq_ok_iff]

mutual

theorem resolve_ofValue_eq_ok_iff : ∀ {v : Value}, v.FitsLeaf → ∀ {w : Value},
    s.resolve (.ofValue v) = .ok w ↔ Value.Filled s.Gives v w
  | .null, _, _ | .bool _, _, _ | .string _, _, _ => ok_eq_ok_iff_filled nofun nofun
  | .int i, .int hlow hhigh, _ => by
    rw [Leaf.ofValue, resolve_ofInt hlow hhigh]
    exact ok_eq_ok_iff_filled nofun nofun
  | .float x, .float hx, _ => by
    rw [Leaf.ofValue, resolve, Value.ofFloat, if_pos hx]
    exact ok_eq_ok_iff_filled nofun nofun
  | .list xs, .list h, w => by
    rw [Leaf.ofValue, resolve, bind_eq_ok_iff, Value.filled_list]
    refine exists_congr fun ys => ?_
    rw [resolveItems_ofItems_eq_ok_iff h]
    exact and_congr_right fun _ => ok_eq_ok_iff
  | .object ms, .object h, w => by
    rw [Leaf.ofValue]
    rcases hms : Leaf.inputOf? ms with _ | input
    · rw [Value.filled_object hms]
      dsimp only
      rw [resolve, bind_eq_ok_iff]
      refine exists_congr fun ns => ?_
      rw [resolveEntries_ofMembers_eq_ok_iff h]
      exact and_congr_right fun _ => ok_eq_ok_iff
    · obtain rfl := Leaf.inputOf?_eq_some_iff.1 hms
      exact lookup_eq_ok_iff.trans Value.filled_placeholder.symm

theorem resolveItems_ofItems_eq_ok_iff : ∀ {xs : List Value}, (∀ x ∈ xs, x.FitsLeaf) →
    ∀ {ys : List Value}, s.resolveItems (Leaf.ofItems xs) = .ok ys ↔
      List.Forall₂ (Value.Filled s.Gives) xs ys
  | [], _, ys => by
    rw [Leaf.ofItems, resolveItems, List.forall₂_nil_left_iff, ok_eq_ok_iff]
  | x :: xs, h, ys => by
    obtain ⟨hx, h⟩ := List.forall_mem_cons.1 h
    simp only [Leaf.ofItems, resolveItems, bind_eq_ok_iff, List.forall₂_cons_left_iff,
      resolve_ofValue_eq_ok_iff hx, resolveItems_ofItems_eq_ok_iff h]
    constructor
    · rintro ⟨y, hy, ys, hys, heq⟩
      cases heq
      exact ⟨y, ys, hy, hys, rfl⟩
    · rintro ⟨y, ys, hy, hys, rfl⟩
      exact ⟨y, hy, ys, hys, rfl⟩

theorem resolveEntries_ofMembers_eq_ok_iff : ∀ {ms : List (String × Value)},
    (∀ m ∈ ms, m.2.FitsLeaf) → ∀ {ns : List (String × Value)},
      s.resolveEntries (Leaf.ofMembers ms) = .ok ns ↔
        Entries.names ns = Entries.names ms
          ∧ List.Forall₂ (Value.Filled s.Gives) (ms.map Prod.snd) (ns.map Prod.snd)
  | [], _, ns => by
    rw [Leaf.ofMembers, resolveEntries, ok_eq_ok_iff]
    simp [Entries.names]
  | (k, v) :: ms, h, ns => by
    obtain ⟨hv, h⟩ := List.forall_mem_cons.1 h
    simp only [Leaf.ofMembers, resolveEntries, bind_eq_ok_iff, resolve_ofValue_eq_ok_iff hv,
      resolveEntries_ofMembers_eq_ok_iff h, Entries.names, List.map_cons]
    constructor
    · rintro ⟨w, hw, ns, ⟨hnames, hns⟩, heq⟩
      cases heq
      exact ⟨congrArg (k :: ·) hnames, .cons hw hns⟩
    · rintro ⟨hnames, hns⟩
      rcases ns with _ | ⟨⟨k', w⟩, ns⟩
      · cases hnames
      · obtain ⟨rfl, hnames'⟩ := List.cons.inj hnames
        obtain ⟨hw, hns⟩ := List.forall₂_cons.1 hns
        exact ⟨w, hw, ns, ⟨hnames', hns⟩, rfl⟩

end

/-! ## What is missing -/

mutual

/-- Either the leaf is resolved, and every input that it mentions has a value, or what is said names
an input that it mentions and that has none. -/
theorem resolve_cases : ∀ l : Leaf, (s.Covers l ∧ ∃ w, s.resolve l = .ok w) ∨
    ∃ input, l.Mentions input ∧ ¬s.HasValue input
      ∧ s.resolve l = .error (.unresolvedInput input)
  | .null | .bool _ | .int _ | .float _ | .string _ => by
    refine .inl ⟨?_, _, rfl⟩
    rintro input ⟨⟩
  | .input name => by
    by_cases hv : s.HasValue name
    · refine .inl ⟨?_, hv⟩
      rintro input ⟨⟩
      exact hv
    · exact .inr ⟨name, .input name, hv, lookup_of_not_hasValue hv⟩
  | .list xs => by
    rw [resolve]
    rcases resolveItems_cases xs with ⟨hcovers, ys, hys⟩ | ⟨x, hx, input, hm, hv, herror⟩
    · rw [hys]
      refine .inl ⟨?_, _, rfl⟩
      rintro input ⟨⟩
      exact hcovers _ ‹_› input ‹_›
    · rw [herror]
      exact .inr ⟨input, .item hx hm, hv, rfl⟩
  | .map es => by
    rw [resolve]
    rcases resolveEntries_cases es with ⟨hcovers, ns, hns⟩ | ⟨e, he, input, hm, hv, herror⟩
    · rw [hns]
      refine .inl ⟨?_, _, rfl⟩
      rintro input ⟨⟩
      exact hcovers _ ‹_› input ‹_›
    · rw [herror]
      exact .inr ⟨input, .entry he hm, hv, rfl⟩

theorem resolveItems_cases : ∀ xs : List Leaf,
    ((∀ x ∈ xs, s.Covers x) ∧ ∃ ys, s.resolveItems xs = .ok ys) ∨
      ∃ x ∈ xs, ∃ input, x.Mentions input ∧ ¬s.HasValue input
        ∧ s.resolveItems xs = .error (.unresolvedInput input)
  | [] => .inl ⟨by simp, _, rfl⟩
  | x :: xs => by
    rw [resolveItems]
    rcases resolve_cases x with ⟨hx, y, hy⟩ | ⟨input, hm, hv, herror⟩
    · rw [hy]
      rcases resolveItems_cases xs with ⟨hxs, ys, hys⟩ | ⟨x', hx', input, hm, hv, herror⟩
      · rw [hys]
        exact .inl ⟨List.forall_mem_cons.2 ⟨hx, hxs⟩, _, rfl⟩
      · rw [herror]
        exact .inr ⟨x', List.mem_cons_of_mem _ hx', input, hm, hv, rfl⟩
    · rw [herror]
      exact .inr ⟨x, List.mem_cons_self, input, hm, hv, rfl⟩

theorem resolveEntries_cases : ∀ es : List (String × Leaf),
    ((∀ e ∈ es, s.Covers e.2) ∧ ∃ ns, s.resolveEntries es = .ok ns) ∨
      ∃ e ∈ es, ∃ input, e.2.Mentions input ∧ ¬s.HasValue input
        ∧ s.resolveEntries es = .error (.unresolvedInput input)
  | [] => .inl ⟨by simp, _, rfl⟩
  | (key, x) :: es => by
    rw [resolveEntries]
    rcases resolve_cases x with ⟨hx, y, hy⟩ | ⟨input, hm, hv, herror⟩
    · rw [hy]
      rcases resolveEntries_cases es with ⟨hes, ns, hns⟩ | ⟨e, he, input, hm, hv, herror⟩
      · rw [hns]
        exact .inl ⟨List.forall_mem_cons.2 ⟨hx, hes⟩, _, rfl⟩
      · rw [herror]
        exact .inr ⟨e, List.mem_cons_of_mem _ he, input, hm, hv, rfl⟩
    · rw [herror]
      exact .inr ⟨(key, x), List.mem_cons_self, input, hm, hv, rfl⟩

end

/-- Resolving a leaf that was read from a value gives exactly what fills the value. It fails exactly
if among the inputs that are collected from the leaf there is one without a value, names such an
input, and the inputs that are collected are exactly those that placeholders in the value stand
for. -/
theorem resolve_exact (s : Substitution) {v : Value} (hv : v.FitsLeaf) :
    (∀ w, s.resolve (.ofValue v) = .ok w ↔ Value.Filled s.Gives v w)
      ∧ ((∃ fault, s.resolve (.ofValue v) = .error fault) ↔
        ∃ input ∈ (NameSet.ofNames (Leaf.ofValue v).inputList).names, ¬∃ w, s.Gives input w)
      ∧ (∀ fault, s.resolve (.ofValue v) = .error fault →
        ∃ input ∈ (NameSet.ofNames (Leaf.ofValue v).inputList).names,
          (¬∃ w, s.Gives input w) ∧ fault = .unresolvedInput input)
      ∧ ∀ input, input ∈ (NameSet.ofNames (Leaf.ofValue v).inputList).names ↔ v.Awaits input := by
  simp only [Leaf.mem_names_ofNames_inputList, ← hasValue_iff_gives]
  refine ⟨fun w => resolve_ofValue_eq_ok_iff hv, ?_, ?_, fun input => Leaf.mentions_ofValue⟩
  · rcases s.resolve_cases (.ofValue v) with ⟨hcovers, w, hw⟩ | ⟨input, hm, hnone, herror⟩
    · rw [hw]
      refine iff_of_false (by rintro ⟨_, ⟨⟩⟩) ?_
      rintro ⟨input, hm, hnone⟩
      exact hnone (hcovers input hm)
    · exact iff_of_true ⟨_, herror⟩ ⟨input, hm, hnone⟩
  · intro fault hfault
    rcases s.resolve_cases (.ofValue v) with ⟨-, w, hw⟩ | ⟨input, hm, hnone, herror⟩
    · rw [hw] at hfault
      cases hfault
    · rw [herror] at hfault
      exact ⟨input, hm, hnone, (Except.error.inj hfault).symm⟩

/-- A value with placeholders in it, and with objects that are none: one has another member, one
refers to no name, and one refers to what is itself a placeholder. -/
def lookalikes : Value :=
  .object
    [("image", .single "get_input" (.string "image")),
     ("sizes", .list
        [.single "get_input" (.string "size"), .single "get_input" (.int 5),
         .object [("get_input", .string "size"), ("unit", .string "GB")]]),
     ("zone", .single "get_input" (.single "get_input" (.string "zone")))]

/-- An image that reads like a placeholder, a size that is nothing though it has a default, and a
zone by default. -/
def lookalikeInputs : Substitution :=
  ⟨some ((Table.empty.put "image" (.single "get_input" (.string "size"))).put "size" .null),
    (Table.empty.put "size" ⟨none, some (.int 1)⟩).put "zone" ⟨none, some (.string "nova")⟩⟩

theorem lookalikes_filled : lookalikes.FitsLeaf ∧ Value.Filled lookalikeInputs.Gives lookalikes
    (.object
      [("image", .single "get_input" (.string "size")),
       ("sizes", .list
          [.null, .single "get_input" (.int 5),
           .object [("get_input", .string "size"), ("unit", .string "GB")]]),
       ("zone", .single "get_input" (.string "nova"))]) := by
  have hfits : lookalikes.FitsLeaf := by
    have hsingle {key : String} {v : Value} (hv : v.FitsLeaf) : (Value.single key v).FitsLeaf :=
      .object (List.forall_mem_singleton.2 hv)
    have hunit : (Value.object [("get_input", .string "size"), ("unit", .string "GB")]).FitsLeaf :=
      .object (List.forall_mem_cons.2 ⟨.string _, List.forall_mem_singleton.2 (.string _)⟩)
    refine .object (List.forall_mem_cons.2 ⟨hsingle (.string _), List.forall_mem_cons.2
      ⟨.list ?_, List.forall_mem_singleton.2 (hsingle (hsingle (.string _)))⟩⟩)
    exact List.forall_mem_cons.2 ⟨hsingle (.string _), List.forall_mem_cons.2
      ⟨hsingle (.int (by decide) (by decide)), List.forall_mem_singleton.2 hunit⟩⟩
  exact ⟨hfits, ((resolve_exact lookalikeInputs hfits).1 _).1 rfl⟩

end Substitution

end Provision
