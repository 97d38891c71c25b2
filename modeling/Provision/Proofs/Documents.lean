import Provision.Document
import Provision.Proofs.Conversion
import Provision.Proofs.Rereading
import Provision.Proofs.Tables

/-!
# Documents of values

The document of a JSON value has settled (`settle?_ofValue`) and is read as this value again
(`value?_ofValue`). A value with a name twice in an object, or with its names in another order, is
still read as a JSON value (`of_value?_ofValue`).
-/

namespace Provision

variable {α β : Type}

theorem exists_of_mapM {f : α → Option β} {as : List α} {bs : List β} (h : as.mapM f = some bs) :
    ∀ b ∈ bs, ∃ a ∈ as, f a = some b := by
  induction as generalizing bs with
  | nil =>
    cases h
    intro b hb
    cases hb
  | cons a as ih =>
    rw [List.mapM_cons] at h
    obtain ⟨b, hb, h⟩ := Option.bind_eq_some_iff.1 h
    obtain ⟨bs, hbs, h⟩ := Option.bind_eq_some_iff.1 h
    cases h
    refine List.forall_mem_cons.2 ⟨⟨a, List.mem_cons_self, hb⟩, fun b' hb' => ?_⟩
    obtain ⟨a', ha', h⟩ := ih hbs b' hb'
    exact ⟨a', List.mem_cons_of_mem _ ha', h⟩

theorem mapM_map_of_forall {γ : Type} {f : α → Option β} {g : γ → α} {h : γ → β} {l : List γ}
    (hf : ∀ c ∈ l, f (g c) = some (h c)) : (l.map g).mapM f = some (l.map h) := by
  induction l with
  | nil => rfl
  | cons c l ih =>
    obtain ⟨hc, hl⟩ := List.forall_mem_cons.1 hf
    rw [List.map_cons, List.mapM_cons, hc, ih hl]
    rfl

namespace Value

theorem orderedItems_iff {xs : List Value} : OrderedItems xs ↔ ∀ x ∈ xs, x.Ordered := by
  induction xs with
  | nil => simp [OrderedItems]
  | cons x xs ih => rw [OrderedItems, ih, List.forall_mem_cons]

theorem orderedMembers_iff {ms : List (String × Value)} :
    OrderedMembers ms ↔ ∀ m ∈ ms, m.2.Ordered := by
  induction ms with
  | nil => simp [OrderedMembers]
  | cons m ms ih => rw [OrderedMembers, ih, List.forall_mem_cons]

theorem fits_int {i : Int} :
    (Value.int i).Fits ↔ Binary64.int64Min ≤ i ∧ i < Nat.pow 2 64 :=
  ⟨fun | .int hlow hhigh => ⟨hlow, hhigh⟩, fun h => .int h.1 h.2⟩

theorem fits_list {xs : List Value} : (Value.list xs).Fits ↔ ∀ x ∈ xs, x.Fits :=
  ⟨fun | .list h => h, .list⟩

theorem fits_object {ms : List (String × Value)} :
    (Value.object ms).Fits ↔ ∀ m ∈ ms, m.2.Fits :=
  ⟨fun | .object h => h, .object⟩

theorem ordered_list {xs : List Value} : (Value.list xs).Ordered ↔ ∀ x ∈ xs, x.Ordered := by
  rw [Ordered, orderedItems_iff]

theorem ordered_object {ms : List (String × Value)} :
    (Value.object ms).Ordered ↔ Ascending (Entries.names ms) ∧ ∀ m ∈ ms, m.2.Ordered := by
  rw [Ordered, orderedMembers_iff]

theorem ordered_ofMembers {ms : List (String × Value)} (h : ∀ m ∈ ms, m.2.Ordered) :
    (Value.ofMembers ms).Ordered :=
  ordered_object.2 ⟨Entries.ascending_ofList ms, fun m hm => h m (Entries.mem_of_mem_ofList hm)⟩

theorem fits_ofMembers {ms : List (String × Value)} (h : ∀ m ∈ ms, m.2.Fits) :
    (Value.ofMembers ms).Fits :=
  .object fun m hm => h m (Entries.mem_of_mem_ofList hm)

end Value

/-! ## Documents of values -/

namespace Node

variable {v : Value}

theorem ofItems_eq (xs : List Value) : ofItems xs = xs.map ofValue := by
  induction xs with
  | nil => rfl
  | cons x xs ih => rw [ofItems, ih, List.map_cons]

theorem isNull_ofValue : (ofValue v).isNull = true ↔ v = .null := by
  cases v <;> simp [ofValue, isNull, ofString]

theorem of_list?_ofValue {f : Node → Option α} {as : List α}
    (h : (ofValue v).list? f = some as) : ∃ xs, v = .list xs ∧ (ofItems xs).mapM f = some as := by
  cases v with
  | list xs => exact ⟨xs, rfl, h⟩
  | _ => cases h

theorem of_entries?_ofValue {es : List (Node × Node)} (h : (ofValue v).entries? = some es) :
    ∃ ms, v = .object ms ∧ es = ofMembers ms := by
  cases v with
  | object ms =>
    cases h
    exact ⟨ms, rfl, rfl⟩
  | _ => cases h

theorem settleItems?_eq_mapM (xs : List Node) : settleItems? xs = xs.mapM settle? := by
  induction xs with
  | nil => rfl
  | cons x xs ih =>
    rw [settleItems?, ih, List.mapM_cons]
    rfl

theorem settleEntries?_eq_mapM (es : List (Node × Node)) :
    settleEntries? es = es.mapM fun e =>
      (settle? e.1).bind fun k => (settle? e.2).map fun x => (k, x) := by
  induction es with
  | nil => rfl
  | cons e es ih =>
    obtain ⟨k, x⟩ := e
    rw [settleEntries?, ih, List.mapM_cons]
    rcases settle? k with _ | k
    · rfl
    · rcases settle? x with _ | x
      · rfl
      · rfl

theorem settleItems?_ofItems {xs : List Value}
    (h : ∀ x ∈ xs, settle? (ofValue x) = some (ofValue x)) :
    settleItems? (ofItems xs) = some (ofItems xs) := by
  rw [settleItems?_eq_mapM, ofItems_eq, mapM_map_of_forall h]

theorem settleEntries?_ofMembers {ms : List (String × Value)}
    (h : ∀ m ∈ ms, settle? (ofValue m.2) = some (ofValue m.2)) :
    settleEntries? (ofMembers ms) = some (ofMembers ms) := by
  rw [settleEntries?_eq_mapM, ofMembers_eq]
  refine mapM_map_of_forall fun m hm => ?_
  rw [h m hm]
  rfl

/-- The document of a value has settled. -/
theorem settle?_ofValue (h : v.Fits) : settle? (ofValue v) = some (ofValue v) := by
  induction h with
  | null | bool | float | string => rfl
  | int hlow hhigh =>
    rw [ofValue, settle?, scalarValue?, if_pos ⟨hlow, hhigh⟩]
    rfl
  | list _ ih =>
    rw [ofValue, settle?, settleItems?_ofItems ih]
    rfl
  | object _ ih =>
    rw [ofValue, settle?, settleEntries?_ofMembers ih]
    rfl

theorem items?_ofItems (xs : List Value) :
    items? (ofItems xs) = xs.mapM fun x => value? (ofValue x) := by
  induction xs with
  | nil => rfl
  | cons x xs ih =>
    rw [ofItems, items?, ih, List.mapM_cons]
    rfl

theorem members?_ofMembers (ms : List (String × Value)) (done : List (String × Value)) :
    members? (ofMembers ms) done
      = (ms.mapM fun m => (value? (ofValue m.2)).map fun v => (m.1, v)).map fun ms =>
          ms.foldl (fun es e => Entries.put e.1 e.2 es) done := by
  induction ms generalizing done with
  | nil => rfl
  | cons m ms ih =>
    obtain ⟨k, v⟩ := m
    rw [ofMembers, members?, List.mapM_cons]
    rcases value? (ofValue v) with _ | v
    · rfl
    · change members? (ofMembers ms) (Entries.put k v done)
        = Option.map _ (Option.bind (List.mapM _ ms) fun ms => some ((k, v) :: ms))
      rw [ih, Option.map_bind, Option.map_eq_bind]
      rfl

theorem value?_list (xs : List Value) : value? (ofValue (.list xs))
    = (xs.mapM fun x => value? (ofValue x)).map .list := by
  rw [ofValue, value?, items?_ofItems]

theorem value?_object (ms : List (String × Value)) : value? (ofValue (.object ms))
    = (ms.mapM fun m => (value? (ofValue m.2)).map fun v => (m.1, v)).map .ofMembers := by
  rw [ofValue, value?, members?_ofMembers, Option.map_map]
  rfl

theorem value?_int {i : Int} (hlow : Binary64.int64Min ≤ i) (hhigh : i < Nat.pow 2 64) :
    value? (ofValue (.int i)) = some (.int i) := by
  rw [ofValue, value?, scalarValue?, if_pos ⟨hlow, hhigh⟩]

theorem value?_float {x : Binary64} (h : x.isFinite = true) :
    value? (ofValue (.float x)) = some (.float x) := by
  rw [ofValue, value?, scalarValue?, Value.ofFloat, if_pos h]

/-- A value is read as it is. -/
theorem value?_ofValue (h : v.Fits) (ho : v.Ordered) : value? (ofValue v) = some v := by
  induction h with
  | null | bool | string => rfl
  | int hlow hhigh => exact value?_int hlow hhigh
  | float hx => exact value?_float hx
  | @list xs _ ih =>
    rw [Value.ordered_list] at ho
    have hxs : (xs.map id).mapM (fun x => value? (ofValue x)) = some (xs.map id) :=
      mapM_map_of_forall fun x hx => ih x hx (ho x hx)
    rw [List.map_id] at hxs
    rw [value?_list, hxs]
    rfl
  | @object ms _ ih =>
    rw [Value.ordered_object] at ho
    have hms : (ms.map id).mapM (fun m => (value? (ofValue m.2)).map fun v => (m.1, v))
        = some (ms.map id) := mapM_map_of_forall fun m hm => by
      rw [id, ih m hm (ho.2 m hm)]
      rfl
    rw [List.map_id] at hms
    rw [value?_object, hms, Option.map_some, Value.ofMembers, Entries.ofList_of_ascending ho.1]

/-- What is read as a value is one, and nothing only if it was nothing. -/
theorem of_value?_ofValue {w : Value} (h : v.Fits) (hw : value? (ofValue v) = some w) :
    w.Fits ∧ w.Ordered ∧ (w = .null → v = .null) := by
  induction h generalizing w with
  | null =>
    cases hw
    exact ⟨.null, trivial, fun _ => rfl⟩
  | bool b =>
    cases hw
    exact ⟨.bool b, trivial, nofun⟩
  | string s =>
    cases hw
    exact ⟨.string s, trivial, nofun⟩
  | int hlow hhigh =>
    rw [value?_int hlow hhigh] at hw
    cases hw
    exact ⟨.int hlow hhigh, trivial, nofun⟩
  | float hx =>
    rw [value?_float hx] at hw
    cases hw
    exact ⟨.float hx, trivial, nofun⟩
  | list _ ih =>
    rw [value?_list, Option.map_eq_some_iff] at hw
    obtain ⟨ys, hys, rfl⟩ := hw
    have hall : ∀ y ∈ ys, y.Fits ∧ y.Ordered := fun y hy => by
      obtain ⟨x, hx, hxy⟩ := exists_of_mapM hys y hy
      obtain ⟨hfits, hordered, -⟩ := ih x hx hxy
      exact ⟨hfits, hordered⟩
    exact ⟨.list fun y hy => (hall y hy).1, Value.ordered_list.2 fun y hy => (hall y hy).2, nofun⟩
  | object _ ih =>
    rw [value?_object, Option.map_eq_some_iff] at hw
    obtain ⟨ns, hns, rfl⟩ := hw
    have hall : ∀ n ∈ ns, n.2.Fits ∧ n.2.Ordered := fun n hn => by
      obtain ⟨m, hm, hmn⟩ := exists_of_mapM hns n hn
      obtain ⟨w, hw, rfl⟩ := Option.map_eq_some_iff.1 hmn
      obtain ⟨hfits, hordered, -⟩ := ih m hm hw
      exact ⟨hfits, hordered⟩
    exact ⟨Value.fits_ofMembers fun n hn => (hall n hn).1,
      Value.ordered_ofMembers fun n hn => (hall n hn).2, nofun⟩

end Node

end Provision
