/-!
# Tables

A table maps names to values and lists its entries by name, so that whatever is written from it
comes out in name order. `Entries` holds the operations on a plain list of entries, which is the
form that nested trees use; a `Table` adds the proof that the names ascend strictly.

Main statements: every operation keeps the names ascending (`ascending_put`, `ascending_erase`),
a table is known by what it answers (`Table.ext_get?`), and `get?` after `put` and `erase` is what
one expects (`get?_put`, `get?_erase`).
-/

namespace Provision

/-- Names in strictly ascending order. -/
abbrev Ascending (names : List String) : Prop := names.Pairwise (· < ·)

theorem lt_or_gt_of_ne {a b : String} (h : a ≠ b) : a < b ∨ b < a := by
  by_cases hab : a < b
  · exact .inl hab
  · refine .inr (Decidable.byContradiction fun hba => h ?_)
    exact String.le_antisymm (String.not_lt.1 hba) (String.not_lt.1 hab)

namespace Entries

variable {α β : Type}

/-- The names of the entries, in order. -/
abbrev names (es : List (String × α)) : List String := es.map Prod.fst

/-- The value filed under `name`. -/
def get? (name : String) : List (String × α) → Option α
  | [] => none
  | (k, v) :: es => if name = k then some v else get? name es

/-- Files `value` under `name`, in place of what was there. -/
def put (name : String) (value : α) : List (String × α) → List (String × α)
  | [] => [(name, value)]
  | (k, v) :: es =>
    if name < k then (name, value) :: (k, v) :: es
    else if name = k then (name, value) :: es
    else (k, v) :: put name value es

/-- Drops what is filed under `name`. -/
def erase (name : String) : List (String × α) → List (String × α)
  | [] => []
  | (k, v) :: es => if name = k then es else (k, v) :: erase name es

/-- Files the entries one after the other, so that the last of one name stays. -/
def ofList : List (String × α) → List (String × α) :=
  List.foldl (fun es e => put e.1 e.2 es) []

/-- Visits the entries in order and keeps their names. -/
def traverse {m : Type → Type} [Monad m] (f : String → α → m β) :
    (es : List (String × α)) → m { bs : List (String × β) // names bs = names es }
  | [] => pure ⟨[], rfl⟩
  | (k, a) :: es => do
    let b ← f k a
    let ⟨bs, h⟩ ← traverse f es
    pure ⟨(k, b) :: bs, by simp [names, h]⟩

theorem mem_names_put {name : String} {value : α} {x : String} :
    ∀ {es : List (String × α)}, x ∈ names (put name value es) ↔ x = name ∨ x ∈ names es
  | [] => by simp [put, names]
  | (k, v) :: es => by
    simp only [put]
    split
    · simp [names]
    · split
      · rename_i h
        subst h
        simp [names]
      · have ih : x ∈ names (put name value es) ↔ x = name ∨ x ∈ names es := mem_names_put
        simp only [names, List.map_cons, List.mem_cons] at ih ⊢
        rw [ih]
        constructor <;> rintro (h | h | h) <;> simp [h]

theorem ascending_put {name : String} {value : α} :
    ∀ {es : List (String × α)}, Ascending (names es) → Ascending (names (put name value es))
  | [], _ => by simp [put, names, Ascending]
  | (k, v) :: es, h => by
    simp only [names, List.map_cons, Ascending, List.pairwise_cons] at h
    simp only [put]
    split
    · rename_i hlt
      simp only [names, List.map_cons, Ascending, List.pairwise_cons]
      refine ⟨fun x hx => ?_, h⟩
      rcases List.mem_cons.1 hx with rfl | hx
      · exact hlt
      · exact String.lt_trans hlt (h.1 x hx)
    · split
      · rename_i heq
        subst heq
        simpa only [names, List.map_cons, Ascending, List.pairwise_cons] using h
      · rename_i hge hne
        simp only [names, List.map_cons, Ascending, List.pairwise_cons]
        refine ⟨fun x hx => ?_, ascending_put h.2⟩
        rcases mem_names_put.1 hx with rfl | hx
        · exact (lt_or_gt_of_ne hne).resolve_left hge
        · exact h.1 x hx

theorem names_erase_sublist {name : String} :
    ∀ {es : List (String × α)}, (names (erase name es)).Sublist (names es)
  | [] => by simp [erase, names]
  | (k, v) :: es => by
    simp only [erase]
    split
    · simp [names]
    · have ih : (names (erase name es)).Sublist (names es) := names_erase_sublist
      simpa only [names, List.map_cons] using ih.cons_cons k

theorem ascending_erase {name : String} {es : List (String × α)} (h : Ascending (names es)) :
    Ascending (names (erase name es)) :=
  h.sublist names_erase_sublist

theorem ascending_ofList (es : List (String × α)) : Ascending (names (ofList es)) := by
  suffices ∀ (es acc : List (String × α)), Ascending (names acc) →
      Ascending (names (es.foldl (fun es e => put e.1 e.2 es) acc)) from
    this es [] (by simp [names, Ascending])
  intro es
  induction es with
  | nil => exact fun _ h => h
  | cons e es ih => exact fun acc h => ih _ (ascending_put h)

theorem get?_put {name x : String} {value : α} :
    ∀ {es : List (String × α)},
      get? x (put name value es) = if x = name then some value else get? x es
  | [] => by simp [put, get?]
  | (k, v) :: es => by
    simp only [put]
    split
    · simp [get?]
    · split
      · rename_i h
        subst h
        simp only [get?]
        split <;> rfl
      · rename_i hne
        have ih : get? x (put name value es) = if x = name then some value else get? x es :=
          get?_put
        simp only [get?, ih]
        by_cases hk : x = k
        · subst hk
          simp [Ne.symm hne]
        · simp [hk]

theorem get?_eq_none {x : String} :
    ∀ {es : List (String × α)}, get? x es = none ↔ x ∉ names es
  | [] => by simp [get?, names]
  | (k, v) :: es => by
    have ih : get? x es = none ↔ x ∉ names es := get?_eq_none
    simp only [get?, names, List.map_cons, List.mem_cons, not_or] at ih ⊢
    split
    · rename_i h
      simp [h]
    · rename_i h
      simp [h, ih]

theorem get?_erase {name x : String} :
    ∀ {es : List (String × α)}, Ascending (names es) →
      get? x (erase name es) = if x = name then none else get? x es
  | [], _ => by simp [erase, get?]
  | (k, v) :: es, h => by
    simp only [names, List.map_cons, Ascending, List.pairwise_cons] at h
    simp only [erase]
    split
    · rename_i hk
      subst hk
      split
      · rename_i hx
        subst hx
        exact get?_eq_none.2 fun hmem => String.lt_irrefl x (h.1 x hmem)
      · rename_i hx
        simp [get?, hx]
    · rename_i hk
      have ih : get? x (erase name es) = if x = name then none else get? x es := get?_erase h.2
      simp only [get?, ih]
      by_cases hx : x = k
      · subst hx
        simp [Ne.symm hk]
      · simp [hx]

theorem mem_names_of_mem {k : String} {v : α} {es : List (String × α)} (h : (k, v) ∈ es) :
    k ∈ names es :=
  List.mem_map_of_mem h

/-- Ascending entries are known by their look-ups. -/
theorem ext_get? : ∀ {es fs : List (String × α)}, Ascending (names es) → Ascending (names fs) →
    (∀ x, get? x es = get? x fs) → es = fs
  | [], [], _, _, _ => rfl
  | [], (k, v) :: fs, _, _, h => by simpa [get?] using h k
  | (k, v) :: es, [], _, _, h => by simpa [get?] using h k
  | (k, v) :: es, (l, w) :: fs, hes, hfs, h => by
    simp only [names, List.map_cons, Ascending, List.pairwise_cons] at hes hfs
    have hkl : k = l := by
      refine Decidable.byContradiction fun hne => ?_
      have hk := h k
      have hl := h l
      simp only [get?, if_true, hne, Ne.symm hne, if_false] at hk hl
      have hk' : k ∈ names fs := by
        refine Decidable.byContradiction fun hn => ?_
        rw [get?_eq_none.2 hn] at hk
        exact absurd hk (by simp)
      have hl' : l ∈ names es := by
        refine Decidable.byContradiction fun hn => ?_
        rw [get?_eq_none.2 hn] at hl
        exact absurd hl (by simp)
      exact String.lt_asymm (hes.1 l hl') (hfs.1 k hk')
    subst hkl
    have hv : v = w := by simpa [get?] using h k
    subst hv
    congr 1
    refine ext_get? hes.2 hfs.2 fun x => ?_
    by_cases hx : x = k
    · subst hx
      rw [get?_eq_none.2 fun hm => String.lt_irrefl x (hes.1 x hm),
        get?_eq_none.2 fun hm => String.lt_irrefl x (hfs.1 x hm)]
    · simpa [get?, hx] using h x

end Entries

/-- A finite map from names to values, listed by name. -/
structure Table (α : Type) where
  entries : List (String × α)
  ascending : Ascending (Entries.names entries)
  deriving DecidableEq

namespace Table

variable {α β : Type}

/-- The table without entries. -/
def empty : Table α := ⟨[], List.Pairwise.nil⟩

instance : EmptyCollection (Table α) := ⟨empty⟩

instance : Inhabited (Table α) := ⟨empty⟩

/-- The value filed under `name`. -/
def get? (t : Table α) (name : String) : Option α := Entries.get? name t.entries

/-- Whether anything is filed under `name`. -/
def contains (t : Table α) (name : String) : Bool := (t.get? name).isSome

/-- Files `value` under `name`, in place of what was there. -/
def put (t : Table α) (name : String) (value : α) : Table α :=
  ⟨Entries.put name value t.entries, Entries.ascending_put t.ascending⟩

/-- Drops what is filed under `name`. -/
def erase (t : Table α) (name : String) : Table α :=
  ⟨Entries.erase name t.entries, Entries.ascending_erase t.ascending⟩

/-- Files the entries one after the other, so that the last of one name stays. -/
def ofList (es : List (String × α)) : Table α := ⟨Entries.ofList es, Entries.ascending_ofList es⟩

/-- The names, ascending. -/
def names (t : Table α) : List String := Entries.names t.entries

/-- The values, by name. -/
def values (t : Table α) : List α := t.entries.map Prod.snd

/-- The number of entries. -/
def size (t : Table α) : Nat := t.entries.length

/-- Whether there are no entries. -/
def isEmpty (t : Table α) : Bool := t.entries.isEmpty

/-- Changes every value and keeps the names. -/
def map (f : String → α → β) (t : Table α) : Table β :=
  ⟨t.entries.map fun e => (e.1, f e.1 e.2), by
    have h : Entries.names (t.entries.map fun e => (e.1, f e.1 e.2)) = Entries.names t.entries := by
      simp [Entries.names, Function.comp_def]
    rw [h]
    exact t.ascending⟩

/-- Keeps the entries that pass. -/
def filter (p : String → α → Bool) (t : Table α) : Table α :=
  ⟨t.entries.filter fun e => p e.1 e.2, t.ascending.sublist (List.filter_sublist.map Prod.fst)⟩

/-- Visits the entries by name and keeps the names. -/
def traverse {m : Type → Type} [Monad m] (f : String → α → m β) (t : Table α) : m (Table β) := do
  let ⟨bs, h⟩ ← Entries.traverse f t.entries
  pure ⟨bs, h ▸ t.ascending⟩

/-- Files all of `u`, which wins over what `t` has under the same names. -/
def extend (t u : Table α) : Table α := u.entries.foldl (fun t e => t.put e.1 e.2) t

theorem get?_put {t : Table α} {name x : String} {value : α} :
    (t.put name value).get? x = if x = name then some value else t.get? x :=
  Entries.get?_put

theorem get?_erase {t : Table α} {name x : String} :
    (t.erase name).get? x = if x = name then none else t.get? x :=
  Entries.get?_erase t.ascending

/-- A table is known by what it answers. -/
theorem ext_get? {t u : Table α} (h : ∀ x, t.get? x = u.get? x) : t = u := by
  obtain ⟨es, hes⟩ := t
  obtain ⟨fs, hfs⟩ := u
  have := Entries.ext_get? hes hfs h
  subst this
  rfl

end Table

/-- A set of names. -/
abbrev NameSet := Table Unit

namespace NameSet

/-- The set of the listed names. -/
def ofNames (names : List String) : NameSet := names.foldl (fun t n => t.put n ()) Table.empty

/-- Adds a name. -/
def add (s : NameSet) (name : String) : NameSet := s.put name ()

/-- Everything in either set. -/
def union (s t : NameSet) : NameSet := s.extend t

end NameSet

end Provision
