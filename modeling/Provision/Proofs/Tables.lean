import Mathlib.Data.List.Dedup
import Provision.Table

/-!
# What tables answer

The names, values and entries of a table said through its look-ups, and the look-ups of the tables
that `filter`, `extend` and `NameSet.ofNames` make.
-/

namespace Provision

theorem length_dedup_eq_iff {α : Type} [DecidableEq α] {l : List α} :
    l.dedup.length = l.length ↔ l.Nodup :=
  ⟨fun h => List.dedup_eq_self.1 (l.dedup_sublist.eq_of_length h), fun h => by rw [h.dedup]⟩

namespace Entries

variable {α : Type}

theorem mem_of_get? {x : String} {v : α} :
    ∀ {es : List (String × α)}, get? x es = some v → (x, v) ∈ es
  | [], h => by simp [get?] at h
  | (k, w) :: es, h => by
    simp only [get?] at h
    split at h
    · rename_i hx
      simp only [Option.some.injEq] at h
      subst hx h
      exact List.mem_cons_self
    · exact List.mem_cons_of_mem _ (mem_of_get? h)

theorem get?_of_mem {x : String} {v : α} :
    ∀ {es : List (String × α)}, Ascending (names es) → (x, v) ∈ es → get? x es = some v
  | [], _, h => by simp at h
  | (k, w) :: es, ha, h => by
    simp only [names, List.map_cons, Ascending, List.pairwise_cons] at ha
    rcases List.mem_cons.1 h with h | h
    · cases h
      simp [get?]
    · have hm : x ∈ names es := mem_names_of_mem h
      have hk : x ≠ k := by
        rintro rfl
        exact String.lt_irrefl x (ha.1 x hm)
      simp only [get?, hk, if_false]
      exact get?_of_mem ha.2 h

theorem filter_eq_singleton {e : String × α} {es : List (String × α)} (h : Ascending (names es))
    (he : e ∈ es) : (es.filter fun f => f.1 == e.1) = [e] := by
  induction es with
  | nil => cases he
  | cons f es ih =>
    rw [names, List.map_cons, Ascending, List.pairwise_cons] at h
    rcases List.mem_cons.1 he with rfl | he
    · rw [List.filter_cons_of_pos (by simp), List.cons.injEq, and_iff_right rfl,
        List.filter_eq_nil_iff]
      intro f hf heq
      have hlt := h.1 f.1 (List.mem_map_of_mem hf)
      rw [beq_iff_eq.1 heq] at hlt
      exact String.lt_irrefl _ hlt
    · rw [List.filter_cons_of_neg, ih h.2 he]
      intro heq
      have hlt := h.1 e.1 (List.mem_map_of_mem he)
      rw [beq_iff_eq.1 heq] at hlt
      exact String.lt_irrefl _ hlt

theorem get?_filter {x : String} (p : String → α → Bool) :
    ∀ {es : List (String × α)}, Ascending (names es) →
      get? x (es.filter fun e => p e.1 e.2) = (get? x es).filter (p x)
  | [], _ => by simp [get?]
  | (k, w) :: es, ha => by
    simp only [names, List.map_cons, Ascending, List.pairwise_cons] at ha
    have ih := get?_filter (x := x) p ha.2
    by_cases hx : x = k
    · subst hx
      have hnone : get? x es = none := get?_eq_none.2 fun h => String.lt_irrefl x (ha.1 x h)
      rw [hnone] at ih
      by_cases hp : p x w
      · simp [get?, hp, Option.filter]
      · simp [get?, hp, ih, Option.filter]
    · by_cases hp : p k w
      · simp [get?, hp, hx, ih]
      · simp [get?, hp, hx, ih]

theorem get?_map {β : Type} {x : String} (f : String → α → β) :
    ∀ {es : List (String × α)}, get? x (es.map fun e => (e.1, f e.1 e.2)) = (get? x es).map (f x)
  | [] => rfl
  | (k, w) :: es => by
    by_cases hx : x = k
    · subst hx
      simp [get?]
    · simp [get?, hx, get?_map f]

/-- Of several entries of a name the last one counts. -/
theorem get?_ofList {x : String} (es : List (String × α)) :
    get? x (ofList es) = (es.reverse.find? fun e => e.1 = x).map Prod.snd := by
  suffices ∀ (es acc : List (String × α)),
      get? x (es.foldl (fun es e => put e.1 e.2 es) acc)
        = ((es.reverse.find? fun e => e.1 = x).map Prod.snd).or (get? x acc) from by
    rw [ofList, this]
    simp [get?]
  intro es
  induction es with
  | nil => simp
  | cons e es ih =>
    intro acc
    rw [List.foldl_cons, ih, get?_put, List.reverse_cons, List.find?_append]
    by_cases hx : e.1 = x
    · subst hx
      rw [List.find?_cons_of_pos (by simp), if_pos rfl]
      cases es.reverse.find? (fun f => f.1 = e.1) <;> rfl
    · rw [List.find?_cons_of_neg (by simpa using hx), if_neg (Ne.symm hx), List.find?_nil,
        Option.or_none]

/-- What is filed was listed. -/
theorem mem_of_mem_ofList {e : String × α} {es : List (String × α)} (h : e ∈ ofList es) :
    e ∈ es := by
  have hget := get?_of_mem (ascending_ofList es) h
  rw [get?_ofList, Option.map_eq_some_iff] at hget
  obtain ⟨e', he', hv⟩ := hget
  have hk : e'.1 = e.1 := by simpa using List.find?_some he'
  have heq : e' = e := Prod.ext hk hv
  exact heq ▸ List.mem_reverse.1 (List.mem_of_find?_eq_some he')

theorem mem_put_self {name : String} {value : α} :
    ∀ {es : List (String × α)}, (name, value) ∈ put name value es
  | [] => by simp [put]
  | (k, v) :: es => by
    simp only [put]
    split
    · exact List.mem_cons_self
    · split
      · exact List.mem_cons_self
      · exact List.mem_cons_of_mem _ mem_put_self

theorem of_mem_put {name : String} {value : α} {e : String × α} :
    ∀ {es : List (String × α)}, e ∈ put name value es → e = (name, value) ∨ e ∈ es
  | [], h => by simpa [put] using h
  | (k, v) :: es, h => by
    simp only [put] at h
    split at h
    · simpa using h
    · split at h
      · exact (List.mem_cons.1 h).imp_right (List.mem_cons_of_mem _)
      · rcases List.mem_cons.1 h with rfl | h
        · exact .inr List.mem_cons_self
        · exact (of_mem_put h).imp_right (List.mem_cons_of_mem _)

theorem put_perm {name : String} {value : α} :
    ∀ {es : List (String × α)}, name ∉ names es → (put name value es).Perm ((name, value) :: es)
  | [], _ => .refl _
  | (k, v) :: es, h => by
    rw [names, List.map_cons, List.mem_cons, not_or] at h
    rw [put, if_neg h.1]
    split
    · exact .refl _
    · exact ((put_perm h.2).cons (k, v)).trans (.swap ..)

theorem ofList_perm {es : List (String × α)} (h : (names es).Nodup) :
    (ofList es).Perm es := by
  suffices ∀ es acc : List (String × α), (names (es ++ acc)).Nodup →
      (es.foldl (fun es e => put e.1 e.2 es) acc).Perm (es ++ acc) by
    have hall := this es [] (by rwa [List.append_nil])
    rwa [List.append_nil] at hall
  intro es
  induction es with
  | nil => exact fun _ _ => .refl _
  | cons e es ih =>
    intro acc hn
    have hput : (put e.1 e.2 acc).Perm (e :: acc) := by
      refine put_perm fun hmem => ?_
      rw [List.cons_append, names, List.map_cons, List.nodup_cons, List.map_append] at hn
      exact hn.1 (List.mem_append_right _ hmem)
    have hmiddle : (es ++ put e.1 e.2 acc).Perm (e :: es ++ acc) :=
      (hput.append_left es).trans List.perm_middle
    rw [List.foldl_cons]
    exact (ih _ ((hmiddle.map Prod.fst).nodup_iff.2 hn)).trans hmiddle

theorem get?_ofList_eq_some_iff {x : String} {v : α} {es : List (String × α)}
    (h : (names es).Nodup) : get? x (ofList es) = some v ↔ (x, v) ∈ es :=
  ⟨fun hget => mem_of_mem_ofList (mem_of_get? hget),
    fun hmem => get?_of_mem (ascending_ofList es) ((ofList_perm h).mem_iff.2 hmem)⟩

end Entries

namespace Table

variable {α : Type} {t u : Table α} {x : String} {v : α}

theorem mem_entries : (x, v) ∈ t.entries ↔ t.get? x = some v :=
  ⟨Entries.get?_of_mem t.ascending, Entries.mem_of_get?⟩

theorem contains_iff : t.contains x = true ↔ ∃ v, t.get? x = some v := by
  simp [contains, Option.isSome_iff_exists]

theorem contains_of_get? (h : t.get? x = some v) : t.contains x = true := contains_iff.2 ⟨v, h⟩

theorem mem_names : x ∈ t.names ↔ t.contains x = true := by
  rw [contains_iff]
  constructor
  · intro h
    obtain ⟨⟨k, v⟩, he, rfl⟩ := List.mem_map.1 h
    exact ⟨v, mem_entries.1 he⟩
  · rintro ⟨v, h⟩
    exact Entries.mem_names_of_mem (mem_entries.2 h)

theorem mem_values : v ∈ t.values ↔ ∃ x, t.get? x = some v := by
  constructor
  · intro h
    obtain ⟨⟨k, w⟩, he, rfl⟩ := List.mem_map.1 h
    exact ⟨k, mem_entries.1 he⟩
  · rintro ⟨x, h⟩
    exact List.mem_map.2 ⟨(x, v), mem_entries.2 h, rfl⟩

theorem get?_map {β : Type} (f : String → α → β) : (t.map f).get? x = (t.get? x).map (f x) :=
  Entries.get?_map f

theorem get?_ofList (es : List (String × α)) :
    (ofList es).get? x = (es.reverse.find? fun e => e.1 = x).map Prod.snd :=
  Entries.get?_ofList es

theorem contains_ofList {es : List (String × α)} :
    (ofList es).contains x = true ↔ x ∈ Entries.names es := by
  rw [contains, get?_ofList, Option.isSome_map, List.find?_isSome]
  simp only [List.mem_reverse, decide_eq_true_eq, List.mem_map]

theorem map_id (t : Table α) : (t.map fun _ a => a) = t := ext_get? fun x => by
  rw [get?_map, Option.map_id']

theorem map_injective {β : Type} {f : α → β} (hf : Function.Injective f) :
    Function.Injective fun t : Table α => t.map fun _ a => f a := by
  intro t u h
  refine ext_get? fun x => Option.map_injective hf ?_
  rw [← get?_map fun _ a => f a, ← get?_map fun _ a => f a]
  exact congrArg (fun t => t.get? x) h

theorem eq_empty_of_isEmpty (h : t.isEmpty = true) : t = .empty := by
  obtain ⟨es, hes⟩ := t
  obtain rfl := List.isEmpty_iff.1 h
  rfl

theorem eq_of_isEmpty (ht : t.isEmpty = true) (hu : u.isEmpty = true) : t = u :=
  (eq_empty_of_isEmpty ht).trans (eq_empty_of_isEmpty hu).symm

@[simp] theorem get?_empty : (empty : Table α).get? x = none := rfl

theorem get?_filter (p : String → α → Bool) : (t.filter p).get? x = (t.get? x).filter (p x) :=
  Entries.get?_filter p t.ascending

theorem put_put (name : String) (v w : α) : (t.put name v).put name w = t.put name w := by
  refine ext_get? fun x => ?_
  rw [get?_put, get?_put, get?_put]
  split <;> rfl

/-- Of a name in both tables the second one's value counts. -/
theorem get?_extend : (t.extend u).get? x = (u.get? x).or (t.get? x) := by
  suffices ∀ (es : List (String × α)) (s : Table α), Ascending (Entries.names es) →
      (es.foldl (fun t e => t.put e.1 e.2) s).get? x = (Entries.get? x es).or (s.get? x) from
    this u.entries t u.ascending
  intro es
  induction es with
  | nil => simp [Entries.get?]
  | cons e es ih =>
    intro s ha
    simp only [Entries.names, List.map_cons, Ascending, List.pairwise_cons] at ha
    rw [List.foldl_cons, ih _ ha.2, get?_put]
    by_cases hx : x = e.1
    · have hnone : Entries.get? x es = none :=
        Entries.get?_eq_none.2 fun h => String.lt_irrefl x (hx ▸ ha.1 x h)
      simp [Entries.get?, hx] at hnone ⊢
      simp [hnone]
    · simp [Entries.get?, hx]

/-- Entries of different names may be filed in any order. -/
theorem ofList_eq_of_perm {es fs : List (String × α)} (hn : (Entries.names es).Nodup)
    (h : es.Perm fs) : ofList es = ofList fs := by
  have hfs : (Entries.names fs).Nodup := (h.map Prod.fst).nodup_iff.1 hn
  refine ext_get? fun x => Option.ext fun v => ?_
  rw [← mem_entries, ← mem_entries]
  exact ((Entries.ofList_perm hn).trans (h.trans (Entries.ofList_perm hfs).symm)).mem_iff

theorem size_map {β : Type} (f : String → α → β) : (t.map f).size = t.size := List.length_map _

/-- There are as many entries as there are names. -/
theorem size_ofList (es : List (String × α)) :
    (ofList es).size = (Entries.names es).dedup.length := by
  have hnames : ((ofList es).names).Nodup := (ofList es).ascending.imp String.ne_of_lt
  have hperm : (ofList es).names.Perm (Entries.names es).dedup := by
    refine (List.perm_ext_iff_of_nodup hnames (List.nodup_dedup _)).2 fun x => ?_
    rw [mem_names, contains_ofList, List.mem_dedup]
  exact (List.length_map _).symm.trans hperm.length_eq

theorem ofList_entries (t : Table α) : ofList t.entries = t := by
  have hn : (Entries.names t.entries).Nodup := t.ascending.imp String.ne_of_lt
  refine ext_get? fun x => Option.ext fun v => ?_
  rw [← mem_entries, ← mem_entries]
  exact (Entries.ofList_perm hn).mem_iff

end Table

theorem Entries.ofList_of_ascending {α : Type} {es : List (String × α)}
    (h : Ascending (Entries.names es)) : Entries.ofList es = es :=
  congrArg Table.entries (Table.ofList_entries ⟨es, h⟩)

namespace NameSet

/-- A name is in the set of the listed names if it is listed. -/
theorem contains_ofNames {x : String} {ns : List String} :
    (ofNames ns).contains x = true ↔ x ∈ ns := by
  suffices ∀ (ns : List String) (s : NameSet),
      (ns.foldl (fun t n => t.put n ()) s).contains x = true ↔ x ∈ ns ∨ s.contains x = true from by
    simpa [Table.contains, ofNames] using this ns Table.empty
  intro ns
  induction ns with
  | nil => simp
  | cons n ns ih =>
    intro s
    rw [List.foldl_cons, ih]
    by_cases hx : x = n
    · simp [Table.contains, Table.get?_put, hx]
    · simp [Table.contains, Table.get?_put, hx]

theorem mem_names_ofNames {x : String} {ns : List String} : x ∈ (ofNames ns).names ↔ x ∈ ns :=
  Table.mem_names.trans contains_ofNames

end NameSet

end Provision
