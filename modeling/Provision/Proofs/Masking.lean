import Provision.Proofs.Conversion
import Provision.Proofs.Validity

/-!
# References that are read in a value and in its JSON

Validation reads the references of a property value; the orchestration service reads those of its
JSON. It reads more: a mapping that looks like a reference once it is in JSON (`Property.Masked`),
and a reference by a path with something else than steps in it (`Value.StraysTo`). There is no other
difference (`refersTo_of_toValue`), and in a value that was taken over from JSON nothing is masked
(`not_masked_ofValue`).
-/

namespace Provision

namespace Value

/-- The value is a reference to the resource, by a path or without one. -/
inductive PointsTo : Value → String → Prop
  | resource (name : String) : PointsTo (.object [("get_resource", .string name)]) name
  | attribute (name : String) (path : List Value) :
    PointsTo (.object [("get_attr", .list (.string name :: path))]) name

/-- A reference to the resource stands somewhere in the value. -/
inductive RefersTo : Value → String → Prop
  | here {v : Value} {name : String} : PointsTo v name → RefersTo v name
  | item {x : Value} {xs : List Value} {name : String} :
    x ∈ xs → RefersTo x name → RefersTo (.list xs) name
  | member {m : String × Value} {ms : List (String × Value)} {name : String} :
    m ∈ ms → RefersTo m.2 name → RefersTo (.object ms) name

/-- A reference to the resource by a path with something else than steps in it stands somewhere in
the value. -/
inductive StraysTo : Value → String → Prop
  | here (name : String) {path : List Value} : (∃ x ∈ path, ¬x.IsStep) →
    StraysTo (.object [("get_attr", .list (.string name :: path))]) name
  | item {x : Value} {xs : List Value} {name : String} :
    x ∈ xs → StraysTo x name → StraysTo (.list xs) name
  | member {m : String × Value} {ms : List (String × Value)} {name : String} :
    m ∈ ms → StraysTo m.2 name → StraysTo (.object ms) name

/-- The names of the members that references have. -/
def referenceKeys : List String := ["get_resource", "get_param", "get_attr"]

variable {v : Value} {n : String}

theorem IsReference.key {ms : List (String × Value)} (h : (Value.object ms).IsReference) :
    ∀ m ∈ ms, m.1 ∈ referenceKeys := by
  generalize hv : Value.object ms = v at h
  rcases h with _ | _ | _
  · cases hv
    simp [referenceKeys]
  · cases hv
    simp [referenceKeys]
  · cases hv
    simp [referenceKeys]

theorem PointsTo.isReference_or_straysTo (h : v.PointsTo n) : v.IsReference ∨ v.StraysTo n := by
  rcases h with _ | ⟨_, path⟩
  · exact .inl (.resource n)
  · by_cases hpath : ∀ x ∈ path, x.IsStep
    · exact .inl (.attribute n hpath)
    · push Not at hpath
      exact .inr (.here n hpath)

/-- What is neither a list nor an object has no reference in it. -/
theorem RefersTo.nested (h : v.RefersTo n) : (∃ xs, v = .list xs) ∨ ∃ ms, v = .object ms := by
  rcases h with ⟨_ | _⟩ | _ | _
  · exact .inr ⟨_, rfl⟩
  · exact .inr ⟨_, rfl⟩
  · exact .inl ⟨_, rfl⟩
  · exact .inr ⟨_, rfl⟩

theorem pointsTo_single {key : String} {arg : Value} : (Value.single key arg).PointsTo n ↔
    (key = "get_resource" ∧ arg = .string n)
      ∨ (key = "get_attr" ∧ ∃ path, arg = .list (.string n :: path)) := by
  constructor
  · intro h
    generalize hv : Value.single key arg = v at h
    rcases h with _ | ⟨_, path⟩
    · cases hv
      exact .inl ⟨rfl, rfl⟩
    · cases hv
      exact .inr ⟨rfl, path, rfl⟩
  · rintro (⟨rfl, rfl⟩ | ⟨rfl, path, rfl⟩)
    · exact .resource n
    · exact .attribute n path

theorem refersTo_single {key : String} {arg : Value} (h : (Value.single key arg).RefersTo n) :
    (Value.single key arg).PointsTo n ∨ arg.RefersTo n := by
  rcases h with hpoints | _ | ⟨hm, href⟩
  · exact .inl hpoints
  · obtain rfl := List.mem_singleton.1 hm
    exact .inr href

end Value

namespace Property

variable {p : Property} {n : String}

/-! ## What is read of a value -/

mutual

/-- What the service reads as a reference, validation reads as well, unless it is masked or
strays. -/
theorem refersTo_of_toValue : ∀ {p : Property}, ¬p.Masked → p.toValue.RefersTo n →
    p.RefersTo n ∨ p.toValue.StraysTo n
  | .null, _, h | .bool _, _, h | .int _, _, h | .string _, _, h => by
    simpa [toValue] using h.nested
  | .float x, _, h => by
    have hnested := h.nested
    rw [toValue, Value.ofFloat] at hnested
    split_ifs at hnested <;> simp at hnested
  | .resource name, _, h => by
    rcases Value.refersTo_single h with hpoints | h
    · obtain rfl : name = n := by simpa [Value.pointsTo_single] using hpoints
      exact .inl (.resource name)
    · simpa using h.nested
  | .parameter name, _, h => by
    rcases Value.refersTo_single h with hpoints | h
    · simp [Value.pointsTo_single] at hpoints
    · simpa using h.nested
  | .attribute name path, _, h => by
    rcases Value.refersTo_single h with hpoints | h
    · obtain rfl : name = n := by simpa [Value.pointsTo_single] using hpoints
      exact .inl (.attribute name path)
    · rcases h with ⟨⟨⟩⟩ | ⟨hx, h⟩
      rcases List.mem_cons.1 hx with rfl | hx
      · simpa using h.nested
      · obtain ⟨step, -, rfl⟩ := List.mem_map.1 hx
        have hnested := h.nested
        rcases step with _ | _ <;> simp [AttrStep.toValue] at hnested
  | .list xs, hmask, h => by
    rw [masked_list] at hmask
    rcases h with ⟨⟨⟩⟩ | ⟨hx, h⟩
    obtain ⟨x, hmem, rfl, hor⟩ := refersTo_of_toItems (fun x hx hm => hmask ⟨x, hx, hm⟩) hx h
    rcases hor with href | hstray
    · exact .inl (.item hmem href)
    · exact .inr (.item hx hstray)
  | .map es, hmask, h => by
    have hreference : ¬(Value.object (toMembers es)).IsReference := fun href => hmask (.here href)
    rcases h with hpoints | _ | ⟨hm, h⟩
    · exact .inr (hpoints.isReference_or_straysTo.resolve_left hreference)
    · rw [masked_map hreference] at hmask
      obtain ⟨e, he, rfl, hor⟩ := refersTo_of_toMembers (fun e he hm => hmask ⟨e, he, hm⟩) hm h
      rcases hor with href | hstray
      · exact .inl (.entry he href)
      · exact .inr (.member hm hstray)

theorem refersTo_of_toItems : ∀ {xs : List Property}, (∀ x ∈ xs, ¬x.Masked) → ∀ {v : Value},
    v ∈ toItems xs → v.RefersTo n → ∃ x ∈ xs, x.toValue = v ∧ (x.RefersTo n ∨ v.StraysTo n)
  | [], _, _, hv, _ => by cases hv
  | x :: xs, hmask, v, hv, h => by
    rw [List.forall_mem_cons] at hmask
    rw [toItems] at hv
    rcases List.mem_cons.1 hv with rfl | hv
    · exact ⟨x, List.mem_cons_self, rfl, refersTo_of_toValue hmask.1 h⟩
    · obtain ⟨y, hy, hor⟩ := refersTo_of_toItems hmask.2 hv h
      exact ⟨y, List.mem_cons_of_mem _ hy, hor⟩

theorem refersTo_of_toMembers : ∀ {es : List (String × Property)}, (∀ e ∈ es, ¬e.2.Masked) →
    ∀ {m : String × Value}, m ∈ toMembers es → m.2.RefersTo n →
      ∃ e ∈ es, (e.1, e.2.toValue) = m ∧ (e.2.RefersTo n ∨ m.2.StraysTo n)
  | [], _, _, hm, _ => by cases hm
  | (key, p) :: es, hmask, m, hm, h => by
    rw [List.forall_mem_cons] at hmask
    rw [toMembers] at hm
    rcases List.mem_cons.1 hm with rfl | hm
    · exact ⟨(key, p), List.mem_cons_self, rfl, refersTo_of_toValue hmask.1 h⟩
    · obtain ⟨e, he, hor⟩ := refersTo_of_toMembers hmask.2 hm h
      exact ⟨e, List.mem_cons_of_mem _ he, hor⟩

end

/-! ## Values that nothing is masked in -/

theorem not_masked_bool {b : Bool} : ¬(Property.bool b).Masked := by
  rintro ⟨⟩

theorem not_masked_int {i : Int} : ¬(Property.int i).Masked := by
  rintro ⟨⟩

theorem not_masked_float {x : Binary64} : ¬(Property.float x).Masked := by
  rintro ⟨⟩

theorem not_masked_attribute {name : String} {path : List AttrStep} :
    ¬(Property.attribute name path).Masked := by
  rintro ⟨⟩

theorem not_masked_string {s : String} : ¬(Property.string s).Masked := by
  rintro ⟨⟩

theorem not_masked_resource {name : String} : ¬(Property.resource name).Masked := by
  rintro ⟨⟩

theorem not_masked_list {xs : List Property} (h : ∀ x ∈ xs, ¬x.Masked) :
    ¬(Property.list xs).Masked := by
  rw [masked_list]
  rintro ⟨x, hx, hmask⟩
  exact h x hx hmask

/-- A mapping with a name in it that references do not have. -/
theorem not_masked_map {e : String × Property} {es : List (String × Property)} (he : e ∈ es)
    (hkey : e.1 ∉ Value.referenceKeys) (h : ∀ e ∈ es, ¬e.2.Masked) : ¬(Property.map es).Masked := by
  have hnot : ¬(Value.object (toMembers es)).IsReference := by
    intro href
    refine hkey (href.key (e.1, e.2.toValue) ?_)
    rw [toMembers_eq_map]
    exact List.mem_map_of_mem he
  rw [masked_map hnot]
  rintro ⟨e, he, hmask⟩
  exact h e he hmask

theorem not_masked_single {key : String} (hkey : key ∉ Value.referenceKeys) (h : ¬p.Masked) :
    ¬(single key p).Masked :=
  not_masked_map (List.mem_singleton_self _) hkey (List.forall_mem_singleton.2 h)

/-! ## Values taken over from JSON -/

theorem toValue_ofValue_object (ms : List (String × Value)) :
    ∃ ms', (ofValue (.object ms)).toValue = .object ms' := by
  by_cases href : (Value.object ms).IsReference
  · obtain ⟨p, hp, heq⟩ := ofValue_object_of_isReference href
    exact ⟨ms, heq ▸ toValue_of_referenceOf? hp⟩
  · exact ⟨_, congrArg toValue (ofValue_object_of_not_isReference href)⟩

/-- What a number becomes there and back is the number, or none that is whole. -/
theorem toValue_ofValue_number (v : Value) (h : (∃ i, v = .int i) ∨ ∃ x, v = .float x) :
    (ofValue v).toValue = v ∨ (ofValue v).toValue = .null
      ∨ ∃ x, (ofValue v).toValue = .float x := by
  have hfloat : ∀ x, (Property.float x).toValue = .null
      ∨ ∃ y, (Property.float x).toValue = .float y := by
    intro x
    rw [toValue, Value.ofFloat]
    split_ifs
    · exact .inr ⟨x, rfl⟩
    · exact .inl rfl
  rcases h with ⟨i, rfl⟩ | ⟨x, rfl⟩
  · rw [ofValue, ofInt]
    split_ifs
    · exact .inl rfl
    · exact .inr (hfloat _)
  · exact .inr (hfloat x)

theorem eq_string_of_toValue_ofValue {v : Value} {s : String}
    (h : (ofValue v).toValue = .string s) : v = .string s := by
  rcases v with _ | _ | i | x | _ | _ | ms
  · cases h
  · cases h
  · simpa [h] using toValue_ofValue_number (.int i) (.inl ⟨i, rfl⟩)
  · simpa [h] using toValue_ofValue_number (.float x) (.inr ⟨x, rfl⟩)
  · cases h
    rfl
  · cases h
  · obtain ⟨ms', hms⟩ := toValue_ofValue_object ms
    simp [h] at hms

theorem isStep_of_toValue_ofValue {v : Value} (h : (ofValue v).toValue.IsStep) : v.IsStep := by
  rcases v with _ | _ | i | x | s | _ | ms
  · cases h
  · cases h
  · rcases toValue_ofValue_number (.int i) (.inl ⟨i, rfl⟩) with heq | heq | ⟨x, heq⟩
    · rwa [heq] at h
    · rw [heq] at h
      cases h
    · rw [heq] at h
      cases h
  · rcases toValue_ofValue_number (.float x) (.inr ⟨x, rfl⟩) with heq | heq | ⟨x, heq⟩
    · rwa [heq] at h
    · rw [heq] at h
      cases h
    · rw [heq] at h
      cases h
  · exact .key s
  · cases h
  · obtain ⟨ms', hms⟩ := toValue_ofValue_object ms
    rw [hms] at h
    cases h

theorem eq_list_of_toValue_ofValue {v : Value} {ys : List Value}
    (h : (ofValue v).toValue = .list ys) :
    ∃ xs, v = .list xs ∧ xs.map (fun x => (ofValue x).toValue) = ys := by
  rcases v with _ | _ | i | x | _ | xs | ms
  · cases h
  · cases h
  · simpa [h] using toValue_ofValue_number (.int i) (.inl ⟨i, rfl⟩)
  · simpa [h] using toValue_ofValue_number (.float x) (.inr ⟨x, rfl⟩)
  · cases h
  · rw [ofValue, toValue, toItems_eq_map, ofItems_eq_map, List.map_map] at h
    exact ⟨xs, rfl, Value.list.inj h⟩
  · obtain ⟨ms', hms⟩ := toValue_ofValue_object ms
    simp [h] at hms

theorem eq_single_of_again {ms : List (String × Value)} {key : String} {arg : Value}
    (h : toMembers (ofMembers ms) = [(key, arg)]) :
    ∃ v, ms = [(key, v)] ∧ (ofValue v).toValue = arg := by
  rw [toMembers_eq_map, ofMembers_eq_map, List.map_map] at h
  obtain ⟨⟨name, v⟩, rfl, heq⟩ := List.map_eq_singleton_iff.1 h
  obtain ⟨rfl, hv⟩ := Prod.mk.inj heq
  exact ⟨v, rfl, hv⟩

/-- An object that is not a reference does not become one there and back: numbers may change, but
none of them becomes a step. -/
theorem isReference_of_again {ms : List (String × Value)}
    (h : (Value.object (toMembers (ofMembers ms))).IsReference) :
    (Value.object ms).IsReference := by
  generalize hms : toMembers (ofMembers ms) = again at h
  rcases h with name | name | ⟨name, hpath⟩
  · obtain ⟨v, rfl, hv⟩ := eq_single_of_again hms
    rw [eq_string_of_toValue_ofValue hv]
    exact .resource name
  · obtain ⟨v, rfl, hv⟩ := eq_single_of_again hms
    rw [eq_string_of_toValue_ofValue hv]
    exact .parameter name
  · obtain ⟨v, rfl, hv⟩ := eq_single_of_again hms
    obtain ⟨xs, rfl, hxs⟩ := eq_list_of_toValue_ofValue hv
    obtain ⟨first, rest, rfl, hfirst, hrest⟩ := List.map_eq_cons_iff.1 hxs
    rw [eq_string_of_toValue_ofValue hfirst]
    refine .attribute name fun x hx => isStep_of_toValue_ofValue (hpath _ ?_)
    rw [← hrest]
    exact List.mem_map_of_mem hx

theorem not_masked_of_referenceOf? {ms : List (String × Value)} (h : referenceOf? ms = some p) :
    ¬p.Masked := by
  rintro (_ | _ | _)
  · exact ne_map_of_referenceOf? h rfl
  · cases toValue_of_referenceOf? h
  · exact ne_map_of_referenceOf? h rfl

mutual

theorem not_masked_ofValue : ∀ v : Value, ¬(ofValue v).Masked
  | .null | .bool _ | .float _ | .string _ => by rintro ⟨⟩
  | .int i => by
    rw [ofValue, ofInt]
    split_ifs
    · rintro ⟨⟩
    · rintro ⟨⟩
  | .list xs => by
    rw [ofValue, masked_list]
    rintro ⟨x, hx, hmask⟩
    exact not_masked_ofItems xs x hx hmask
  | .object ms => by
    by_cases href : (Value.object ms).IsReference
    · obtain ⟨p, hp, heq⟩ := ofValue_object_of_isReference href
      rw [heq]
      exact not_masked_of_referenceOf? hp
    · -- The mapping is masked by what it becomes there and back, not by what it was.
      rw [ofValue_object_of_not_isReference href, masked_map fun h => href (isReference_of_again h)]
      rintro ⟨e, he, hmask⟩
      exact not_masked_ofMembers ms e he hmask

theorem not_masked_ofItems : ∀ xs : List Value, ∀ p ∈ ofItems xs, ¬p.Masked
  | [], _, hp => by cases hp
  | x :: xs, p, hp => by
    rw [ofItems] at hp
    rcases List.mem_cons.1 hp with rfl | hp
    · exact not_masked_ofValue x
    · exact not_masked_ofItems xs p hp

theorem not_masked_ofMembers : ∀ ms : List (String × Value), ∀ e ∈ ofMembers ms, ¬e.2.Masked
  | [], _, he => by cases he
  | (key, v) :: ms, e, he => by
    rw [ofMembers] at he
    rcases List.mem_cons.1 he with rfl | he
    · exact not_masked_ofValue v
    · exact not_masked_ofMembers ms e he

end

end Property

end Provision
