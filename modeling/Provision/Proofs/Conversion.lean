import Mathlib.Data.List.Basic
import Provision.Property

/-!
# Property values there and back

Going from JSON to a property value and back changes a whole number that does not fit sixty-four
bits with a sign, unless it is a step in the path of a reference, and nothing else. Going from a
property value to JSON and back changes a mapping that looks like a reference, and nothing else
(`conversions_exact`).
-/

namespace Provision

namespace Value

/-- The value can stand in the path of a reference to an attribute. -/
inductive IsStep : Value → Prop
  | key (name : String) : IsStep (.string name)
  | index {i : Int} : 0 ≤ i → i < Nat.pow 2 64 → IsStep (.int i)

/-- The value is taken for a reference: to a resource, to a parameter, or to an attribute by a path
of nothing but steps. -/
inductive IsReference : Value → Prop
  | resource (name : String) : IsReference (.object [("get_resource", .string name)])
  | parameter (name : String) : IsReference (.object [("get_param", .string name)])
  | attribute (name : String) {path : List Value} : (∀ x ∈ path, x.IsStep) →
    IsReference (.object [("get_attr", .list (.string name :: path))])

/-- All numbers of the value are such as JSON values hold: whole ones of sixty-four bits with or
without a sign, and others that are finite. -/
inductive Fits : Value → Prop
  | null : Fits .null
  | bool (b : Bool) : Fits (.bool b)
  | int {i : Int} : Binary64.int64Min ≤ i → i < Nat.pow 2 64 → Fits (.int i)
  | float {x : Binary64} : x.isFinite = true → Fits (.float x)
  | string (s : String) : Fits (.string s)
  | list {xs : List Value} : (∀ x ∈ xs, x.Fits) → Fits (.list xs)
  | object {ms : List (String × Value)} : (∀ m ∈ ms, m.2.Fits) → Fits (.object ms)

/-- The whole number stands somewhere in the value, and not in a reference. -/
inductive Exposes : Value → Int → Prop
  | int (i : Int) : Exposes (.int i) i
  | item {x : Value} {xs : List Value} {i : Int} : x ∈ xs → Exposes x i → Exposes (.list xs) i
  | member {m : String × Value} {ms : List (String × Value)} {i : Int} :
    ¬IsReference (.object ms) → m ∈ ms → Exposes m.2 i → Exposes (.object ms) i

end Value

namespace Property

/-- All numbers of the value are such as property values hold: whole ones of sixty-four bits with a
sign, indices of sixty-four bits, and others that are finite. -/
inductive Fits : Property → Prop
  | null : Fits .null
  | bool (b : Bool) : Fits (.bool b)
  | int {i : Int} : Binary64.int64Min ≤ i → i ≤ Binary64.int64Max → Fits (.int i)
  | float {x : Binary64} : x.isFinite = true → Fits (.float x)
  | string (s : String) : Fits (.string s)
  | list {xs : List Property} : (∀ x ∈ xs, x.Fits) → Fits (.list xs)
  | map {es : List (String × Property)} : (∀ e ∈ es, e.2.Fits) → Fits (.map es)
  | resource (name : String) : Fits (.resource name)
  | attribute (name : String) {path : List AttrStep} :
    (∀ i, .index i ∈ path → i < Nat.pow 2 64) → Fits (.attribute name path)
  | parameter (name : String) : Fits (.parameter name)

/-- Somewhere in the value stands a mapping that is taken for a reference once it is in JSON. -/
inductive Masked : Property → Prop
  | here {es : List (String × Property)} :
    (Value.object (toMembers es)).IsReference → Masked (.map es)
  | item {x : Property} {xs : List Property} : x ∈ xs → Masked x → Masked (.list xs)
  | entry {e : String × Property} {es : List (String × Property)} :
    e ∈ es → Masked e.2 → Masked (.map es)

end Property

/-! ## Paths -/

namespace AttrStep

theorem ofValue?_eq_none_iff {v : Value} : ofValue? v = none ↔ ¬v.IsStep := by
  constructor
  · rintro hnone (name | ⟨hlow, hhigh⟩)
    · cases hnone
    · rw [ofValue?, if_pos ⟨hlow, hhigh⟩] at hnone
      cases hnone
  · intro hstep
    unfold ofValue?
    split
    · exact absurd (.key _) hstep
    · rw [if_neg]
      rintro ⟨hlow, hhigh⟩
      exact hstep (.index hlow hhigh)
    · rfl

theorem toValue_of_ofValue? {v : Value} {step : AttrStep} (h : ofValue? v = some step) :
    step.toValue = v := by
  unfold ofValue? at h
  split at h
  · cases h
    rfl
  · split_ifs at h with hrange
    cases h
    rw [toValue, Int.toNat_of_nonneg hrange.1]
  · cases h

theorem ofValue?_toValue {step : AttrStep} (h : ∀ i, step = .index i → i < Nat.pow 2 64) :
    ofValue? step.toValue = some step := by
  rcases step with name | i
  · rfl
  · have hi := h i rfl
    rw [toValue, ofValue?, if_pos (by omega), Int.toNat_natCast]

theorem mapM_ofValue?_eq_none_iff {path : List Value} :
    path.mapM ofValue? = none ↔ ¬∀ x ∈ path, x.IsStep := by
  induction path with
  | nil => simp
  | cons x path ih =>
    rw [List.mapM_cons, List.forall_mem_cons]
    rcases hx : ofValue? x with _ | step
    · simp [ofValue?_eq_none_iff.1 hx]
    · have hstep : x.IsStep := by
        by_contra hno
        rw [ofValue?_eq_none_iff.2 hno] at hx
        cases hx
      rw [and_iff_right hstep, ← ih]
      rcases path.mapM ofValue? with _ | steps
      · simp
      · simp

theorem map_toValue_of_mapM {path : List Value} {steps : List AttrStep}
    (h : path.mapM ofValue? = some steps) : steps.map toValue = path := by
  induction path generalizing steps with
  | nil =>
    cases h
    rfl
  | cons x path ih =>
    rw [List.mapM_cons] at h
    obtain ⟨step, hstep, h⟩ := Option.bind_eq_some_iff.1 h
    obtain ⟨rest, hrest, h⟩ := Option.bind_eq_some_iff.1 h
    cases h
    rw [List.map_cons, toValue_of_ofValue? hstep, ih hrest]

theorem mapM_map_toValue {steps : List AttrStep}
    (h : ∀ i, .index i ∈ steps → i < Nat.pow 2 64) :
    (steps.map toValue).mapM ofValue? = some steps := by
  induction steps with
  | nil => rfl
  | cons step steps ih =>
    rw [List.map_cons, List.mapM_cons, ofValue?_toValue, ih]
    · rfl
    · exact fun i hi => h i (List.mem_cons_of_mem _ hi)
    · rintro i rfl
      exact h i List.mem_cons_self

end AttrStep

/-! ## References -/

namespace Property

variable {ms : List (String × Value)} {es : List (String × Property)} {p : Property}

theorem toItems_eq_map (xs : List Property) : toItems xs = xs.map toValue := by
  induction xs with
  | nil => rfl
  | cons x xs ih => rw [toItems, ih, List.map_cons]

theorem toMembers_eq_map (es : List (String × Property)) :
    toMembers es = es.map fun e => (e.1, e.2.toValue) := by
  induction es with
  | nil => rfl
  | cons e es ih => rw [toMembers, ih, List.map_cons]

theorem ofItems_eq_map (xs : List Value) : ofItems xs = xs.map ofValue := by
  induction xs with
  | nil => rfl
  | cons x xs ih => rw [ofItems, ih, List.map_cons]

theorem ofMembers_eq_map (ms : List (String × Value)) :
    ofMembers ms = ms.map fun m => (m.1, ofValue m.2) := by
  induction ms with
  | nil => rfl
  | cons m ms ih => rw [ofMembers, ih, List.map_cons]

theorem referenceOf?_eq_none_iff :
    referenceOf? ms = none ↔ ¬(Value.object ms).IsReference := by
  constructor
  · rintro hnone (name | name | ⟨name, hpath⟩)
    · cases hnone
    · cases hnone
    · rw [referenceOf?, reference?, Option.map_eq_none_iff] at hnone
      exact AttrStep.mapM_ofValue?_eq_none_iff.1 hnone hpath
  · intro href
    unfold referenceOf?
    split
    · unfold reference?
      split
      · exact absurd (.resource _) href
      · exact absurd (.parameter _) href
      · rw [Option.map_eq_none_iff, AttrStep.mapM_ofValue?_eq_none_iff]
        exact fun hpath => href (.attribute _ hpath)
      · rfl
    · rfl

theorem toValue_of_referenceOf? (h : referenceOf? ms = some p) : p.toValue = .object ms := by
  unfold referenceOf? at h
  split at h
  · unfold reference? at h
    split at h
    · cases h
      rfl
    · cases h
      rfl
    · obtain ⟨steps, hsteps, rfl⟩ := Option.map_eq_some_iff.1 h
      rw [toValue, AttrStep.map_toValue_of_mapM hsteps]
      rfl
    · cases h
  · cases h

theorem ne_map_of_referenceOf? (h : referenceOf? ms = some p) : p ≠ .map es := by
  unfold referenceOf? at h
  split at h
  · unfold reference? at h
    split at h
    · cases h
      rintro ⟨⟩
    · cases h
      rintro ⟨⟩
    · obtain ⟨steps, -, rfl⟩ := Option.map_eq_some_iff.1 h
      rintro ⟨⟩
    · cases h
  · cases h

theorem ofValue_object_of_not_isReference (h : ¬(Value.object ms).IsReference) :
    ofValue (.object ms) = .map (ofMembers ms) := by
  rw [ofValue, referenceOf?_eq_none_iff.2 h, Option.getD_none]

theorem ofValue_object_of_isReference (h : (Value.object ms).IsReference) :
    ∃ p, referenceOf? ms = some p ∧ ofValue (.object ms) = p := by
  rcases hp : referenceOf? ms with _ | p
  · exact absurd h (referenceOf?_eq_none_iff.1 hp)
  · exact ⟨p, rfl, by rw [ofValue, hp, Option.getD_some]⟩

/-! ## From JSON and back -/

theorem toValue_ofInt_eq_iff {i : Int} : (ofInt i).toValue = .int i ↔
    Binary64.int64Min ≤ i ∧ i ≤ Binary64.int64Max := by
  unfold ofInt
  split_ifs with hrange
  · simp [toValue, hrange]
  · simp only [hrange, iff_false, toValue, Value.ofFloat]
    split_ifs <;> simp

theorem exposes_list {xs : List Value} : (∀ i, (Value.list xs).Exposes i → i ≤ Binary64.int64Max)
    ↔ ∀ x ∈ xs, ∀ i, x.Exposes i → i ≤ Binary64.int64Max := by
  constructor
  · intro h x hx i hi
    exact h i (.item hx hi)
  · rintro h i (_ | ⟨hx, hi⟩)
    exact h _ hx i hi

theorem exposes_object (h : ¬(Value.object ms).IsReference) :
    (∀ i, (Value.object ms).Exposes i → i ≤ Binary64.int64Max)
      ↔ ∀ m ∈ ms, ∀ i, m.2.Exposes i → i ≤ Binary64.int64Max := by
  constructor
  · intro hall m hm i hi
    exact hall i (.member h hm hi)
  · rintro hall i (_ | _ | ⟨-, hm, hi⟩)
    exact hall _ hm i hi

mutual

theorem toValue_ofValue_eq_iff : ∀ {v : Value}, v.Fits →
    ((ofValue v).toValue = v ↔ ∀ i, v.Exposes i → i ≤ Binary64.int64Max)
  | .null, _ => ⟨by rintro - i ⟨⟩, fun _ => rfl⟩
  | .bool b, _ => ⟨by rintro - i ⟨⟩, fun _ => rfl⟩
  | .string s, _ => ⟨by rintro - i ⟨⟩, fun _ => rfl⟩
  | .float x, .float hx => by
    refine ⟨by rintro - i ⟨⟩, fun _ => ?_⟩
    rw [ofValue, toValue, Value.ofFloat, if_pos hx]
  | .int i, .int hlow _ => by
    rw [ofValue, toValue_ofInt_eq_iff, and_iff_right hlow]
    constructor
    · rintro hhigh j ⟨⟩
      exact hhigh
    · intro h
      exact h i (.int i)
  | .list xs, .list h => by
    rw [ofValue, toValue, Value.list.injEq, exposes_list]
    exact toItems_ofItems_eq_iff h
  | .object ms, .object h => by
    -- A reference comes back as it was, whatever numbers are in its path.
    by_cases href : (Value.object ms).IsReference
    · obtain ⟨p, hp, heq⟩ := ofValue_object_of_isReference href
      refine ⟨fun _ i hi => ?_, fun _ => ?_⟩
      · rcases hi with _ | _ | ⟨hnot, -, -⟩
        exact absurd href hnot
      · rw [heq, toValue_of_referenceOf? hp]
    · rw [ofValue_object_of_not_isReference href, toValue, Value.object.injEq, exposes_object href]
      exact toMembers_ofMembers_eq_iff h

theorem toItems_ofItems_eq_iff : ∀ {xs : List Value}, (∀ x ∈ xs, x.Fits) →
    (toItems (ofItems xs) = xs ↔ ∀ x ∈ xs, ∀ i, x.Exposes i → i ≤ Binary64.int64Max)
  | [], _ => by simp [ofItems, toItems]
  | x :: xs, h => by
    rw [List.forall_mem_cons] at h ⊢
    rw [ofItems, toItems, List.cons.injEq, toValue_ofValue_eq_iff h.1, toItems_ofItems_eq_iff h.2]

theorem toMembers_ofMembers_eq_iff : ∀ {ms : List (String × Value)}, (∀ m ∈ ms, m.2.Fits) →
    (toMembers (ofMembers ms) = ms ↔ ∀ m ∈ ms, ∀ i, m.2.Exposes i → i ≤ Binary64.int64Max)
  | [], _ => by simp [ofMembers, toMembers]
  | (k, v) :: ms, h => by
    rw [List.forall_mem_cons] at h ⊢
    rw [ofMembers, toMembers, List.cons.injEq, Prod.mk.injEq, toValue_ofValue_eq_iff h.1,
      toMembers_ofMembers_eq_iff h.2]
    simp

end

/-! ## To JSON and back -/

theorem masked_list {xs : List Property} : Masked (.list xs) ↔ ∃ x ∈ xs, x.Masked := by
  constructor
  · rintro ⟨⟩
    exact ⟨_, ‹_›, ‹_›⟩
  · rintro ⟨x, hx, h⟩
    exact .item hx h

theorem masked_map (h : ¬(Value.object (toMembers es)).IsReference) :
    Masked (.map es) ↔ ∃ e ∈ es, e.2.Masked := by
  constructor
  · rintro (href | _ | ⟨he, h⟩)
    · exact absurd href h
    · exact ⟨_, he, h⟩
  · rintro ⟨e, he, h⟩
    exact .entry he h

mutual

theorem ofValue_toValue_eq_iff : ∀ {p : Property}, p.Fits → (ofValue p.toValue = p ↔ ¬p.Masked)
  | .null, _ => ⟨by rintro - ⟨⟩, fun _ => rfl⟩
  | .bool b, _ => ⟨by rintro - ⟨⟩, fun _ => rfl⟩
  | .string s, _ => ⟨by rintro - ⟨⟩, fun _ => rfl⟩
  | .resource name, _ => ⟨by rintro - ⟨⟩, fun _ => rfl⟩
  | .parameter name, _ => ⟨by rintro - ⟨⟩, fun _ => rfl⟩
  | .int i, .int hlow hhigh => by
    refine ⟨by rintro - ⟨⟩, fun _ => ?_⟩
    rw [toValue, ofValue, ofInt, if_pos ⟨hlow, hhigh⟩]
  | .float x, .float hx => by
    refine ⟨by rintro - ⟨⟩, fun _ => ?_⟩
    rw [toValue, Value.ofFloat, if_pos hx, ofValue]
  | .attribute name path, .attribute _ h => by
    refine ⟨by rintro - ⟨⟩, fun _ => ?_⟩
    rw [toValue, Value.single, ofValue, referenceOf?, reference?, AttrStep.mapM_map_toValue h]
    rfl
  | .list xs, .list h => by
    rw [toValue, ofValue, Property.list.injEq, masked_list]
    rw [ofItems_toItems_eq_iff h]
    simp
  | .map es, .map h => by
    rw [toValue]
    by_cases href : (Value.object (toMembers es)).IsReference
    · obtain ⟨p, hp, heq⟩ := ofValue_object_of_isReference href
      rw [heq]
      exact ⟨fun hmap => absurd hmap (ne_map_of_referenceOf? hp),
        fun hno => absurd (.here href) hno⟩
    · rw [ofValue_object_of_not_isReference href, Property.map.injEq, masked_map href,
        ofMembers_toMembers_eq_iff h]
      simp

theorem ofItems_toItems_eq_iff : ∀ {xs : List Property}, (∀ x ∈ xs, x.Fits) →
    (ofItems (toItems xs) = xs ↔ ∀ x ∈ xs, ¬x.Masked)
  | [], _ => by simp [ofItems, toItems]
  | x :: xs, h => by
    rw [List.forall_mem_cons] at h ⊢
    rw [toItems, ofItems, List.cons.injEq, ofValue_toValue_eq_iff h.1, ofItems_toItems_eq_iff h.2]

theorem ofMembers_toMembers_eq_iff : ∀ {es : List (String × Property)}, (∀ e ∈ es, e.2.Fits) →
    (ofMembers (toMembers es) = es ↔ ∀ e ∈ es, ¬e.2.Masked)
  | [], _ => by simp [ofMembers, toMembers]
  | (k, v) :: es, h => by
    rw [List.forall_mem_cons] at h ⊢
    rw [toMembers, ofMembers, List.cons.injEq, Prod.mk.injEq, ofValue_toValue_eq_iff h.1,
      ofMembers_toMembers_eq_iff h.2]
    simp

end

/-- What is the same after going there and back, both ways. -/
theorem conversions_exact {v : Value} (hv : v.Fits) {p : Property} (hp : p.Fits) :
    ((ofValue v).toValue = v ↔ ∀ i, v.Exposes i → i ≤ Binary64.int64Max)
      ∧ (ofValue p.toValue = p ↔ ¬p.Masked) :=
  ⟨toValue_ofValue_eq_iff hv, ofValue_toValue_eq_iff hp⟩

/-- An index too great for a number with a sign, in the path of a reference. -/
def farIndex : Value := .object [("get_attr", .list [.string "port", .int (Nat.pow 2 64 - 1)])]

/-- A mapping that looks like a reference. -/
def mimic : Property := .map [("get_resource", .string "port")]

theorem mimic_changes :
    farIndex.Fits ∧ mimic.Fits ∧ (ofValue farIndex).toValue = farIndex
      ∧ ofValue mimic.toValue ≠ mimic := by
  have hfar : farIndex.Fits := by
    refine .object fun m hm => ?_
    obtain rfl := List.mem_singleton.1 hm
    refine .list fun x hx => ?_
    simp only [List.mem_cons, List.not_mem_nil, or_false] at hx
    rcases hx with rfl | rfl
    · exact .string "port"
    · exact .int (by decide) (by decide)
  have hmimic : mimic.Fits := by
    refine .map fun e he => ?_
    obtain rfl := List.mem_singleton.1 he
    exact .string "port"
  have hreference : farIndex.IsReference := by
    refine .attribute "port" fun x hx => ?_
    obtain rfl := List.mem_singleton.1 hx
    exact .index (by decide) (by decide)
  obtain ⟨hthere, hback⟩ := conversions_exact hfar hmimic
  refine ⟨hfar, hmimic, hthere.2 fun i hi => ?_, fun heq => hback.1 heq (.here (.resource "port"))⟩
  rcases hi with _ | _ | ⟨hnot, -, -⟩
  exact absurd hreference hnot

end Property

end Provision
