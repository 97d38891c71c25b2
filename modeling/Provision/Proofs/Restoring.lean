import Provision.Descriptor.Codec
import Provision.Proofs.Documents
import Provision.Proofs.Rounding

/-!
# What is read is written and read again

Something is read from a JSON value, and written as one. It need not be written as it was read: a
field that was left out is written as its default, a whole number as floating point, a record that
was a list as a mapping. But what is written is a JSON value again, and reading it gives the same
thing (`Restores`).

That is proved of the scalars, and carried over to options, lists and tables. What is restored of a
record is restored field by field (`Rewritten.field`), whether the record stands alone or says its
kind as well (`Restores.ofMembers`, `Recorded.ofKind`).
-/

namespace Provision

variable {α β : Type}

/-- Something is written as a JSON value, from which it is read. -/
structure Written (write : α → Value) (read : Node → Option α) (a : α) : Prop where
  fits : (write a).Fits
  ordered : (write a).Ordered
  again : read (.ofValue (write a)) = some a

/-- What was read from a value is written so that it is read again, and is written as nothing only
if it was read from nothing. -/
structure Restored (write : α → Value) (read : Node → Option α) (v : Value) (a : α) : Prop
    extends Written write read a where
  null : write a = .null → v = .null

/-- Whatever is read from a JSON value is restored. -/
def Restores (write : α → Value) (read : Node → Option α) : Prop :=
  ∀ ⦃v a⦄, v.Fits → read (.ofValue v) = some a → Restored write read v a

/-! ## Scalars, options, lists and tables -/

namespace Node

variable {write : α → Value} {read : Node → Option α}

theorem nat?_ofNat {n bound : Nat} (h : n < bound) : nat? bound (ofValue (.ofNat n)) = some n := by
  rw [Value.ofNat, ofValue, nat?, if_pos (by omega), Int.toNat_natCast]

theorem list?_list {as : List α} (h : ∀ a ∈ as, read (ofValue (write a)) = some a) :
    list? read (ofValue (.list (as.map write))) = some as := by
  have hread := mapM_map_of_forall (h := id) (f := read) (g := ofValue ∘ write) h
  rw [ofValue, list?, ofItems_eq, List.map_map, hread, List.map_id]

theorem table?_ofTable {t : Table α}
    (h : ∀ e ∈ t.entries, read (ofValue (write e.2)) = some e.2) :
    table? read (ofValue (.ofTable (t.map fun _ a => write a))) = some t := by
  have hread := mapM_map_of_forall (h := id) (l := t.entries)
    (f := fun x : Node × Node => do
      let name ← x.1.text?
      let a ← read x.2
      some (name, a))
    (g := fun e => (ofString e.1, ofValue (write e.2))) fun e he => by
      simp only [h e he]
      rfl
  rw [List.map_id] at hread
  rw [Value.ofTable, ofValue, ofMembers_eq, Table.map, List.map_map]
  exact (congrArg (· >>= fun fs => some (Table.ofList fs)) hread).trans
    (congrArg some t.ofList_entries)

end Node

namespace Restores

variable {write : α → Value} {read : Node → Option α}

theorem text : Restores .string Node.text? := by
  intro v a _ h
  cases v with
  | string s =>
    cases h
    exact ⟨⟨.string a, trivial, rfl⟩, nofun⟩
  | _ => cases h

theorem bool : Restores .bool Node.bool? := by
  intro v a _ h
  cases v with
  | bool b =>
    cases h
    exact ⟨⟨.bool a, trivial, rfl⟩, nofun⟩
  | _ => cases h

theorem nat {bound : Nat} (hbound : bound ≤ Nat.pow 2 64) :
    Restores .ofNat (Node.nat? bound) := by
  intro v n _ h
  cases v with
  | int i =>
    rw [Node.ofValue, Node.nat?, Option.ite_none_right_eq_some] at h
    obtain ⟨⟨hlow, hhigh⟩, h⟩ := h
    cases h
    refine ⟨⟨.int ?_ ?_, trivial, Node.nat?_ofNat (by omega)⟩, nofun⟩
    · have : Binary64.int64Min ≤ 0 := by decide
      omega
    · omega
  | _ => cases h

/-- A whole number is restored as floating point. -/
theorem float : Restores .ofFloat Node.float? := by
  have hfloat {v : Value} {x : Binary64} (hx : x.isFinite = true) :
      Restored .ofFloat Node.float? v x := by
    have hwrite : Value.ofFloat x = .float x := if_pos hx
    refine ⟨⟨?_, ?_, ?_⟩, ?_⟩
    · rw [hwrite]
      exact .float hx
    · rw [hwrite]
      trivial
    · rw [hwrite]
      rfl
    · rw [hwrite]
      nofun
  intro v x hv h
  cases hv with
  | int hlow hhigh =>
    cases h
    exact hfloat (Binary64.isFinite_ofInt hlow hhigh)
  | float hx =>
    cases h
    exact hfloat hx
  | _ => cases h

theorem value : Restores id Node.value? := by
  intro v w hv h
  obtain ⟨hfits, hordered, hnull⟩ := Node.of_value?_ofValue hv h
  exact ⟨⟨hfits, hordered, Node.value?_ofValue hfits hordered⟩, hnull⟩

theorem option (h : Restores write read) :
    Restores (Value.ofOption write) (Node.option? read) := by
  intro v o hv ho
  unfold Node.option? at ho
  split_ifs at ho with hnull
  · cases ho
    exact ⟨⟨.null, trivial, rfl⟩, fun _ => Node.isNull_ofValue.1 hnull⟩
  obtain ⟨a, ha, rfl⟩ := Option.map_eq_some_iff.1 ho
  obtain ⟨⟨hfits, hordered, hagain⟩, hwritten⟩ := h hv ha
  refine ⟨⟨hfits, hordered, ?_⟩, hwritten⟩
  rw [Value.ofOption, Node.option?, if_neg, hagain, Option.map_some]
  rw [Node.isNull_ofValue]
  exact fun hw => hnull (Node.isNull_ofValue.2 (hwritten hw))

theorem list (h : Restores write read) :
    Restores (fun as => .list (as.map write)) (Node.list? read) := by
  intro v as hv hread
  obtain ⟨xs, rfl, has⟩ := Node.of_list?_ofValue hread
  cases hv with
  | list hxs =>
    rw [Node.ofItems_eq] at has
    have hall : ∀ a ∈ as, Written write read a := fun a ha => by
      obtain ⟨n, hn, hna⟩ := exists_of_mapM has a ha
      obtain ⟨x, hx, rfl⟩ := List.mem_map.1 hn
      exact (h (hxs x hx) hna).toWritten
    refine ⟨⟨.list fun y hy => ?_, Value.ordered_list.2 fun y hy => ?_, ?_⟩, nofun⟩
    · obtain ⟨a, ha, rfl⟩ := List.mem_map.1 hy
      exact (hall a ha).fits
    · obtain ⟨a, ha, rfl⟩ := List.mem_map.1 hy
      exact (hall a ha).ordered
    · exact Node.list?_list fun a ha => (hall a ha).again

theorem table (h : Restores write read) :
    Restores (fun t => .ofTable (t.map fun _ a => write a)) (Node.table? read) := by
  intro v t hv ht
  obtain ⟨es, hes, ht⟩ := Option.bind_eq_some_iff.1 ht
  obtain ⟨fs, hfs, ht⟩ := Option.bind_eq_some_iff.1 ht
  cases ht
  obtain ⟨ms, rfl, rfl⟩ := Node.of_entries?_ofValue hes
  cases hv with
  | object hms =>
    rw [Node.ofMembers_eq] at hfs
    have hall : ∀ e ∈ (Table.ofList fs).entries, Written write read e.2 := fun e he => by
      obtain ⟨n, hn, hne⟩ := exists_of_mapM hfs e (Entries.mem_of_mem_ofList he)
      obtain ⟨m, hm, rfl⟩ := List.mem_map.1 hn
      obtain ⟨name, -, hne⟩ := Option.bind_eq_some_iff.1 hne
      obtain ⟨a, ha, hne⟩ := Option.bind_eq_some_iff.1 hne
      cases hne
      exact (h (hms m hm) ha).toWritten
    generalize Table.ofList fs = t at hall
    refine ⟨⟨.object fun m hm => ?_, Value.ordered_object.2 ⟨Table.ascending _, fun m hm => ?_⟩,
      ?_⟩, nofun⟩
    · obtain ⟨e, he, rfl⟩ := List.mem_map.1 hm
      exact (hall e he).fits
    · obtain ⟨e, he, rfl⟩ := List.mem_map.1 hm
      exact (hall e he).ordered
    · exact Node.table?_ofTable fun e he => (hall e he).again

end Restores

/-! ## Fields -/

namespace Node

namespace Fields

/-- The nodes of the fields are documents of JSON values. -/
def Fit (fs : Fields) : Prop := ∀ e ∈ fs.written, ∃ v : Value, v.Fits ∧ e.2 = ofValue v

/-- The members are what is written in the fields of their names. -/
def Hold (fs : Fields) (ms : List (String × Value)) : Prop :=
  ∀ m ∈ ms, fs.find? m.1 = some (some (ofValue m.2))

theorem Fit.of_find? {fs : Fields} {name : String} {x : Node} (h : fs.Fit)
    (hx : fs.find? name = some (some x)) : ∃ v : Value, v.Fits ∧ x = ofValue v := by
  unfold find? at hx
  split at hx
  · cases hx
  · rename_i key x' hfilter
    cases hx
    have hmem : (key, x) ∈ fs.written.filter fun e => e.1 == name := by simp [hfilter]
    exact h _ (List.mem_filter.1 hmem).1
  · cases hx

end Fields

theorem fit_of_fields? {v : Value} {names : List String} {fs : Fields} (hv : v.Fits)
    (h : (ofValue v).fields? names = some fs) : fs.Fit := by
  cases hv with
  | @list xs hxs =>
    change (if _ then some _ else none) = _ at h
    rw [Option.ite_none_right_eq_some] at h
    obtain ⟨-, h⟩ := h
    cases h
    intro e he
    have hmem : e.2 ∈ ofItems xs := (List.of_mem_zip he).2
    rw [ofItems_eq] at hmem
    obtain ⟨x, hx, heq⟩ := List.mem_map.1 hmem
    exact ⟨x, hxs x hx, heq.symm⟩
  | @object ms hms =>
    obtain ⟨written, hwritten, h⟩ := Option.bind_eq_some_iff.1 h
    cases h
    intro e he
    obtain ⟨n, hn, hne⟩ := exists_of_mapM hwritten e he
    obtain ⟨name, -, rfl⟩ := Option.map_eq_some_iff.1 hne
    rw [ofMembers_eq] at hn
    obtain ⟨m, hm, rfl⟩ := List.mem_map.1 hn
    exact ⟨m.2, hms m hm, rfl⟩
  | _ => cases h

/-- What is written in a field of a mapping with these members is the member of its name. -/
theorem fields?_mapping {es : List (String × Value)} (names : List String)
    (h : Ascending (Entries.names es)) :
    ∃ fs, (Node.mapping (ofMembers es)).fields? names = some fs
      ∧ ∀ name, fs.find? name = some ((Entries.get? name es).map ofValue) := by
  have hwritten := mapM_map_of_forall (l := es) (g := fun e => (ofString e.1, ofValue e.2))
    (f := fun e => (fieldName? names e.1).map fun name => (name, e.2))
    (h := fun e => (e.1, ofValue e.2)) fun _ _ => rfl
  rw [← ofMembers_eq] at hwritten
  have hfields : (Node.mapping (ofMembers es)).fields? names
      = some ⟨es.map fun e => (e.1, ofValue e.2)⟩ :=
    congrArg (· >>= fun fs => some (Fields.mk fs)) hwritten
  refine ⟨_, hfields, fun name => ?_⟩
  rw [Fields.find?, List.filter_map]
  simp only [Function.comp_def]
  rcases hget : Entries.get? name es with _ | v
  · have hfilter : es.filter (fun e => e.1 == name) = [] := List.filter_eq_nil_iff.2 fun e he heq =>
      Entries.get?_eq_none.1 hget (beq_iff_eq.1 heq ▸ List.mem_map_of_mem he)
    rw [hfilter]
    rfl
  · have hfilter : es.filter (fun e => e.1 == name) = [(name, v)] :=
      Entries.filter_eq_singleton h (Entries.mem_of_get? hget)
    rw [hfilter]
    rfl

/-- The fields of a mapping with these members among others hold them. -/
theorem fields?_ofMembers {ms es : List (String × Value)} (names : List String)
    (h : Ascending (Entries.names es)) (hms : ms ⊆ es) :
    ∃ fs, (Node.mapping (ofMembers es)).fields? names = some fs ∧ fs.Hold ms := by
  obtain ⟨fs, hfs, hfind⟩ := fields?_mapping names h
  refine ⟨fs, hfs, fun m hm => ?_⟩
  rw [hfind, Entries.get?_of_mem h (hms hm), Option.map_some]

end Node

/-! ## Records -/

/-- What was read of a record is written as members, and is read again wherever these are. -/
structure Rewritten (read : Node.Fields → Option α) (ms : List (String × Value)) (a : α) :
    Prop where
  fits : ∀ m ∈ ms, m.2.Fits
  ordered : ∀ m ∈ ms, m.2.Ordered
  again : ∀ fs : Node.Fields, fs.Hold ms → read fs = some a

/-- Whatever is read of the fields of a record is rewritten. -/
def Rewrites (write : α → List (String × Value)) (read : Node.Fields → Option α) : Prop :=
  ∀ ⦃fs a⦄, fs.Fit → read fs = some a → Rewritten read (write a) a

/-- A record is read by its fields, and whatever is read is rewritten. -/
def Recorded (write : α → List (String × Value)) (read : Node → Option α) : Prop :=
  ∃ names readFields, (∀ n, read n = n.fields? names >>= readFields) ∧ Rewrites write readFields

namespace Rewritten

variable {write : α → Value} {read : Node → Option α} {fs : Node.Fields} {name : String} {a : α}

theorem done : Rewritten (fun _ => some a) [] a where
  fits _ h := by cases h
  ordered _ h := by cases h
  again _ _ := rfl

/-- A record is restored field by field. -/
theorem field {first : Node.Fields → Option β} {rest : β → Node.Fields → Option α}
    {m : String × Value} {ms : List (String × Value)} {b : β} (hm : Rewritten first [m] b)
    (hms : Rewritten (rest b) ms a) :
    Rewritten (fun fs => first fs >>= fun b => rest b fs) (m :: ms) a where
  fits := List.forall_mem_cons.2 ⟨hm.fits m List.mem_cons_self, hms.fits⟩
  ordered := List.forall_mem_cons.2 ⟨hm.ordered m List.mem_cons_self, hms.ordered⟩
  again fs h := by
    obtain ⟨hfirst, hrest⟩ := List.forall_mem_cons.1 h
    have hb : first fs = some b := hm.again fs (List.forall_mem_singleton.2 hfirst)
    rw [hb]
    exact hms.again fs hrest

theorem of_written (h : Written write read a) {first : Node.Fields → Option α}
    (hfirst : ∀ (fs : Node.Fields) (x : Node), fs.find? name = some (some x) → first fs = read x) :
    Rewritten first [(name, write a)] a where
  fits := List.forall_mem_singleton.2 h.fits
  ordered := List.forall_mem_singleton.2 h.ordered
  again fs hfs := by
    rw [hfirst fs _ (hfs (name, write a) List.mem_cons_self)]
    exact h.again

theorem required_of_find? {x : Node} (h : fs.find? name = some (some x)) :
    fs.required name read = read x := by
  rw [Node.Fields.required, h]
  rfl

theorem withDefault_of_find? {x : Node} {dflt : α} (h : fs.find? name = some (some x)) :
    fs.withDefault name dflt read = read x := by
  rw [Node.Fields.withDefault, h]
  rfl

theorem required (h : Restores write read) (hfs : fs.Fit)
    (ha : fs.required name read = some a) :
    Rewritten (·.required name read) [(name, write a)] a := by
  obtain ⟨found, hfound, hx⟩ := Option.bind_eq_some_iff.1 ha
  obtain ⟨x, rfl, hx⟩ := Option.bind_eq_some_iff.1 hx
  obtain ⟨v, hv, rfl⟩ := hfs.of_find? hfound
  exact of_written (h hv hx).toWritten fun _ _ => required_of_find?

/-- A field that is left out is written as what it defaults to, which can be read as well. -/
theorem withDefault {dflt : α} (h : Restores write read)
    (hdflt : ∃ v : Value, v.Fits ∧ read (.ofValue v) = some dflt) (hfs : fs.Fit)
    (ha : fs.withDefault name dflt read = some a) :
    Rewritten (·.withDefault name dflt read) [(name, write a)] a := by
  obtain ⟨found, hfound, hx⟩ := Option.bind_eq_some_iff.1 ha
  rcases found with _ | x
  · obtain ⟨v, hv, hdflt⟩ := hdflt
    cases hx
    exact of_written (h hv hdflt).toWritten fun _ _ => withDefault_of_find?
  · obtain ⟨v, hv, rfl⟩ := hfs.of_find? hfound
    exact of_written (h hv hx).toWritten fun _ _ => withDefault_of_find?

theorem optional {o : Option α} (h : Restores write read) (hfs : fs.Fit)
    (ho : fs.optional name read = some o) :
    Rewritten (·.optional name read) [(name, .ofOption write o)] o :=
  withDefault h.option ⟨.null, .null, rfl⟩ hfs ho

theorem table {t : Table α} (h : Restores write read) (hfs : fs.Fit)
    (ht : fs.withDefault name .empty (Node.table? read) = some t) :
    Rewritten (·.withDefault name .empty (Node.table? read))
      [(name, .ofTable (t.map fun _ a => write a))] t :=
  withDefault h.table ⟨.object [], .object (fun _ h => by cases h), rfl⟩ hfs ht

theorem list {as : List α} (h : Restores write read) (hfs : fs.Fit)
    (has : fs.withDefault name [] (Node.list? read) = some as) :
    Rewritten (·.withDefault name [] (Node.list? read)) [(name, .list (as.map write))] as :=
  withDefault h.list ⟨.list [], .list (fun _ h => by cases h), rfl⟩ hfs has

theorem flag {b : Bool} (hfs : fs.Fit)
    (hb : fs.withDefault name false Node.bool? = some b) :
    Rewritten (·.withDefault name false Node.bool?) [(name, .bool b)] b :=
  withDefault .bool ⟨.bool false, .bool false, rfl⟩ hfs hb

end Rewritten

variable {write : α → List (String × Value)} {read : Node.Fields → Option α} {names : List String}

theorem Restores.ofMembers (h : Rewrites write read)
    (hnames : ∀ a, (Entries.names (write a)).Nodup) :
    Restores (fun a => .ofMembers (write a)) fun n => n.fields? names >>= read := by
  intro v a hv ha
  obtain ⟨fs, hfs, ha⟩ := Option.bind_eq_some_iff.1 ha
  have hrewritten := h (Node.fit_of_fields? hv hfs) ha
  refine ⟨⟨Value.fits_ofMembers hrewritten.fits, Value.ordered_ofMembers hrewritten.ordered, ?_⟩,
    fun h => by cases h⟩
  have hsub : write a ⊆ Entries.ofList (write a) :=
    fun m hm => (Entries.ofList_perm (hnames a)).mem_iff.2 hm
  obtain ⟨fs', hfs', hhold⟩ :=
    Node.fields?_ofMembers names (Entries.ascending_ofList (write a)) hsub
  exact Option.bind_eq_some_iff.2 ⟨fs', hfs', hrewritten.again fs' hhold⟩

/-! ## Records that say their kind -/

namespace Node

theorem filter_ofMembers_eq (tag : String) (ms : List (String × Value)) :
    (ofMembers ms).filter (fun e => text? e.1 == some tag)
      = ofMembers (ms.filter fun m => m.1 == tag) := by
  rw [ofMembers_eq, ofMembers_eq, List.filter_map]
  rfl

theorem filter_ofMembers_ne (tag : String) (ms : List (String × Value)) :
    (ofMembers ms).filter (fun e => text? e.1 != some tag)
      = ofMembers (ms.filter fun m => m.1 != tag) := by
  rw [ofMembers_eq, ofMembers_eq, List.filter_map]
  rfl

/-- Beside its kind a record is as good as one that stands alone. -/
theorem of_tagged?_ofValue {v : Value} {tag kind : String} {n : Node} (hv : v.Fits)
    (h : (ofValue v).tagged? tag = some (kind, n)) : ∃ u : Value, u.Fits ∧ n = ofValue u := by
  cases hv with
  | @list xs hxs =>
    rcases xs with _ | ⟨x, xs⟩
    · cases h
    have hrest : ∀ x ∈ xs, x.Fits := (List.forall_mem_cons.1 hxs).2
    obtain ⟨kind', -, h⟩ := Option.bind_eq_some_iff.1 h
    rw [settleItems?_ofItems fun x hx => settle?_ofValue (hrest x hx)] at h
    cases h
    exact ⟨.list xs, .list hrest, rfl⟩
  | @object ms hms =>
    rw [ofValue, tagged?, filter_ofMembers_ne] at h
    have hrest : ∀ m ∈ ms.filter fun m => m.1 != tag, m.2.Fits :=
      fun m hm => hms m (List.mem_filter.1 hm).1
    split at h
    · obtain ⟨kind', -, h⟩ := Option.bind_eq_some_iff.1 h
      rw [settleEntries?_ofMembers fun m hm => settle?_ofValue (hrest m hm)] at h
      cases h
      exact ⟨.object _, .object hrest, rfl⟩
    · cases h
  | _ => cases h

/-- A record that was written with its kind is read as one of this kind that has its members. -/
theorem tagged?_ofKind {kind : String} {ms : List (String × Value)} (hms : ∀ m ∈ ms, m.2.Fits)
    (hnames : (kindField :: Entries.names ms).Nodup) :
    ∃ es, Ascending (Entries.names es) ∧ ms ⊆ es
      ∧ (ofValue (.ofKind kind ms)).tagged? kindField = some (kind, .mapping (ofMembers es)) := by
  obtain ⟨all, hall⟩ : ∃ all, Entries.ofList ((kindField, .string kind) :: ms) = all := ⟨_, rfl⟩
  have hascending : Ascending (Entries.names all) := hall ▸ Entries.ascending_ofList _
  have hmem (m : String × Value) : m ∈ all ↔ m = (kindField, .string kind) ∨ m ∈ ms := by
    have hperm : (Entries.ofList ((kindField, .string kind) :: ms)).Perm _ :=
      Entries.ofList_perm hnames
    rw [← hall, hperm.mem_iff, List.mem_cons]
  refine ⟨all.filter fun m => m.1 != kindField,
    hascending.sublist (List.filter_sublist.map Prod.fst), fun m hm => ?_, ?_⟩
  · refine List.mem_filter.2 ⟨(hmem m).2 (.inr hm), bne_iff_ne.2 fun heq => ?_⟩
    exact (List.nodup_cons.1 hnames).1 (heq ▸ List.mem_map_of_mem hm)
  · have hkind : all.filter (fun m => m.1 == kindField) = [(kindField, .string kind)] :=
      Entries.filter_eq_singleton hascending ((hmem _).2 (.inl rfl))
    have hrest : ∀ m ∈ all.filter fun m => m.1 != kindField, m.2.Fits := fun m hm => by
      obtain ⟨hm, hne⟩ := List.mem_filter.1 hm
      rcases (hmem m).1 hm with rfl | hm
      · exact absurd rfl (bne_iff_ne.1 hne)
      · exact hms m hm
    rw [Value.ofKind, Value.ofMembers, hall, ofValue, tagged?, filter_ofMembers_eq, hkind,
      filter_ofMembers_ne]
    change (settleEntries? _ >>= fun rest => some (kind, Node.mapping rest)) = _
    rw [settleEntries?_ofMembers fun m hm => settle?_ofValue (hrest m hm)]
    rfl

end Node

/-- What a record of this kind is taken for is restored with it. -/
theorem Recorded.ofKind {read : Node → Option α} (h : Recorded write read) (wrap : α → β)
    (hnames : ∀ a, (kindField :: Entries.names (write a)).Nodup) {kind : String}
    {writeAny : β → Value} {readAny : Node → Option β}
    (hwrite : ∀ a, writeAny (wrap a) = .ofKind kind (write a))
    (hread : ∀ m n, m.tagged? kindField = some (kind, n) → readAny m = (read n).map wrap)
    {v : Value} {n : Node} {b : β} (hv : v.Fits)
    (ht : (Node.ofValue v).tagged? kindField = some (kind, n))
    (hb : readAny (Node.ofValue v) = some b) : Restored writeAny readAny v b := by
  obtain ⟨names, readFields, hfields, h⟩ := h
  rw [hread _ n ht, Option.map_eq_some_iff] at hb
  obtain ⟨a, ha, rfl⟩ := hb
  obtain ⟨u, hu, rfl⟩ := Node.of_tagged?_ofValue hv ht
  rw [hfields] at ha
  obtain ⟨fs, hfs, ha⟩ := Option.bind_eq_some_iff.1 ha
  have hrewritten := h (Node.fit_of_fields? hu hfs) ha
  have hkind : (Value.string kind).Fits ∧ (Value.string kind).Ordered := ⟨.string kind, trivial⟩
  refine ⟨⟨?_, ?_, ?_⟩, ?_⟩
  · rw [hwrite]
    exact Value.fits_ofMembers (List.forall_mem_cons.2 ⟨hkind.1, hrewritten.fits⟩)
  · rw [hwrite]
    exact Value.ordered_ofMembers (List.forall_mem_cons.2 ⟨hkind.2, hrewritten.ordered⟩)
  · obtain ⟨es, hes, hsub, htagged⟩ := Node.tagged?_ofKind hrewritten.fits (hnames a)
    obtain ⟨fs', hfs', hhold⟩ := Node.fields?_ofMembers names hes hsub
    rw [hwrite, hread _ _ htagged, hfields, hfs']
    exact congrArg (Option.map wrap) (hrewritten.again fs' hhold)
  · rw [hwrite]
    intro h
    cases h

end Provision
