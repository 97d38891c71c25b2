import Provision.Workflow.Codec
import Provision.Proofs.Restoring
import Provision.Proofs.Sharing
import Provision.Proofs.Submitting

/-!
# What workflows leave out

A workflow is kept as a JSON value, in which tasks leave out what they do not have, and what starts
after a task is a text or a mapping. Nothing is lost: what is left out is the default of its field,
and the value is read as the same workflow again (`ofNode?_toValue`), as long as its numbers are
numbers of JSON (`Workflow.Fits`).

The definition that is registered says everything of a workflow but the input it is started with,
under a name that comes from outside. That name might be the one under which the version stands,
but that of a standard workflow ends in what it does (`name_ne_version`).

Both come from what the members of a record say that may leave out fields (`Value.ofFields`): each
field can be told from the value (`member?_ofFields`), and is found when it is read
(`fields?_ofFields`).
-/

namespace Provision

variable {α : Type}

/-! ## Records that leave out fields -/

namespace Value

/-- An object of fields, some of which are left out. -/
def ofFields (fields : List (String × Option Value)) : Value :=
  .ofMembers (fields.flatMap fun f => fieldOf f.1 f.2)

theorem mem_fieldOf {name : String} {o : Option Value} {m : String × Value} :
    m ∈ fieldOf name o ↔ m.1 = name ∧ o = some m.2 := by
  cases o with
  | none => simp [fieldOf]
  | some v => simp [fieldOf, Prod.ext_iff, eq_comm]

theorem names_fields_sublist (fields : List (String × Option Value)) :
    (Entries.names (fields.flatMap fun f => fieldOf f.1 f.2)).Sublist (Entries.names fields) := by
  induction fields with
  | nil => exact .slnil
  | cons f fields ih =>
    obtain ⟨name, o⟩ := f
    rw [List.flatMap_cons, Entries.names, List.map_append, Entries.names, List.map_cons]
    cases o with
    | none => exact ih.cons name
    | some v => exact ih.cons_cons name

/-- A record says each of its fields. -/
theorem member?_ofFields {fields : List (String × Option Value)}
    (hn : (Entries.names fields).Nodup) {f : String × Option Value} (hf : f ∈ fields) :
    (ofFields fields).member? f.1 = f.2 := by
  refine Option.ext fun v => ?_
  rw [ofFields, ofMembers, member?,
    Entries.get?_ofList_eq_some_iff (hn.sublist (names_fields_sublist fields)), List.mem_flatMap]
  simp only [mem_fieldOf]
  constructor
  · rintro ⟨g, hg, hname, hv⟩
    exact List.inj_on_of_nodup_map hn hf hg hname ▸ hv
  · exact fun hv => ⟨f, hf, rfl, hv⟩

theorem ofFields_inj {fs gs : List (String × Option Value)} {names : List String}
    (hfs : Entries.names fs = names) (hgs : Entries.names gs = names) (hn : names.Nodup)
    (h : ofFields fs = ofFields gs) : fs = gs := by
  have hsaid {fs : List (String × Option Value)} (hfs : Entries.names fs = names) :
      fs = names.map fun x => (x, (ofFields fs).member? x) := by
    have hall : ∀ f ∈ fs, f = (f.1, (ofFields fs).member? f.1) := fun f hf =>
      Prod.ext rfl (member?_ofFields (hfs ▸ hn) hf).symm
    calc fs = fs.map id := fs.map_id.symm
      _ = fs.map fun f => (f.1, (ofFields fs).member? f.1) := List.map_congr_left hall
      _ = names.map fun x => (x, (ofFields fs).member? x) := by rw [← hfs, List.map_map]; rfl
  calc fs = names.map fun x => (x, (ofFields fs).member? x) := hsaid hfs
    _ = names.map fun x => (x, (ofFields gs).member? x) := by rw [h]
    _ = gs := (hsaid hgs).symm

end Value

namespace Node

theorem fields?_ofFields {fields : List (String × Option Value)} {names : List String}
    (hnames : Entries.names fields = names) (hn : names.Nodup) :
    ∃ fs, (ofValue (.ofFields fields)).fields? names = some fs
      ∧ ∀ f ∈ fields, fs.find? f.1 = some (f.2.map ofValue) := by
  obtain ⟨fs, hfs, hfind⟩ := fields?_mapping names
    (Entries.ascending_ofList (fields.flatMap fun f => Value.fieldOf f.1 f.2))
  refine ⟨fs, hfs, fun f hf => ?_⟩
  have hmember : Entries.get? f.1 _ = f.2 := Value.member?_ofFields (hnames ▸ hn) hf
  rw [hfind, hmember]

namespace Fields

variable {fs : Fields} {name : String} {read : Node → Option α}

theorem required_eq {a : α} {v : Value} (hfind : fs.find? name = some ((some v).map ofValue))
    (hread : read (ofValue v) = some a) : fs.required name read = some a :=
  (Rewritten.required_of_find? hfind).trans hread

/-- A field that is left out where it would say its default is read as it was. -/
theorem withDefault_eq {a dflt : α} {o : Option Value}
    (hfind : fs.find? name = some (o.map ofValue)) (hnone : o = none → a = dflt)
    (hsome : ∀ v, o = some v → read (ofValue v) = some a) :
    fs.withDefault name dflt read = some a := by
  cases o with
  | none =>
    rw [withDefault, hfind, hnone rfl]
    rfl
  | some v => exact (Rewritten.withDefault_of_find? hfind).trans (hsome v rfl)

theorem withDefault_elided {a dflt : α} {empty : Bool} {v : Value}
    (hfind : fs.find? name = some ((if empty then none else some v).map ofValue))
    (hempty : empty = true → a = dflt) (hread : read (ofValue v) = some a) :
    fs.withDefault name dflt read = some a := by
  refine withDefault_eq hfind (fun h => hempty (by simpa using h)) fun w h => ?_
  obtain ⟨-, rfl⟩ : empty = false ∧ v = w := by simpa using h
  exact hread

theorem optional_eq {o : Option α} {write : α → Value}
    (hfind : fs.find? name = some ((o.map write).map ofValue))
    (hread : ∀ a ∈ o, read (ofValue (write a)) = some a) (hnull : ∀ a, write a ≠ .null) :
    fs.optional name read = some o := by
  refine withDefault_eq hfind (fun h => Option.map_eq_none_iff.1 h) fun v h => ?_
  obtain ⟨a, rfl, rfl⟩ := Option.map_eq_some_iff.1 h
  rw [option?, if_neg fun h => hnull a (isNull_ofValue.1 h), hread a rfl, Option.map_some]

end Fields

end Node

/-! ## What is written differs -/

theorem eq_of_isEmpty {as bs : List α} (ha : as.isEmpty = true) (hb : bs.isEmpty = true) :
    as = bs :=
  (List.isEmpty_iff.1 ha).trans (List.isEmpty_iff.1 hb).symm

namespace Value

theorem string_injective : Function.Injective string := fun _ _ => string.inj

theorem ofNat_injective : Function.Injective ofNat := fun _ _ h => Int.ofNat.inj (int.inj h)

theorem ofTable_injective : Function.Injective ofTable := by
  rintro ⟨es, hes⟩ ⟨fs, hfs⟩ h
  cases h
  rfl

theorem ofTextTable_injective : Function.Injective ofTextTable :=
  ofTable_injective.comp (Table.map_injective string_injective)

theorem listOf_injective {write : α → Value} (h : Function.Injective write) :
    Function.Injective fun as : List α => list (as.map write) :=
  fun _ _ heq => h.list_map (list.inj heq)

/-- A field tells what it is written from, if what is left out can be one thing only. -/
theorem elided_injective {write : α → Value} {empty : α → Bool} (h : Function.Injective write)
    (hempty : ∀ {a b}, empty a = true → empty b = true → a = b) :
    Function.Injective fun a => if empty a then none else some (write a) := by
  intro a b heq
  simp only at heq
  split_ifs at heq with ha hb hb
  · exact hempty ha hb
  · exact h (Option.some.inj heq)

end Value

/-! ## Workflows that are read again -/

theorem Node.text?_ofValue (s : String) : Node.text? (.ofValue (.string s)) = some s := rfl

theorem Node.table?_value {t : Table Value} (h : ∀ e ∈ t.entries, e.2.Fits ∧ e.2.Ordered) :
    Node.table? Node.value? (.ofValue (.ofTable t)) = some t := by
  have hread : Node.table? Node.value? (.ofValue (.ofTable (t.map fun _ a => id a))) = some t :=
    Node.table?_ofTable fun e he => Node.value?_ofValue (h e he).1 (h e he).2
  rwa [show (t.map fun _ a => id a) = t from t.map_id] at hread

namespace RetryPolicy

variable {r : RetryPolicy}

/-- The numbers of the policy are whole numbers of sixty-four bits. -/
structure Fits (r : RetryPolicy) : Prop where
  count : r.count < Nat.pow 2 64
  delay : r.delay < Nat.pow 2 64

/-- What a policy says, and what it leaves out. -/
def fields (r : RetryPolicy) : List (String × Option Value) :=
  [("count", some (.ofNat r.count)),
   ("delay", some (.ofNat r.delay)),
   ("continue-on", r.continueOn.map .string),
   ("break-on", r.breakOn.map .string)]

theorem names_fields (r : RetryPolicy) :
    Entries.names r.fields = ["count", "delay", "continue-on", "break-on"] := rfl

theorem toValue_eq (r : RetryPolicy) : r.toValue = .ofFields r.fields := by
  simp [toValue, Value.ofFields, fields, Value.fieldOf]

theorem ofNode?_toValue (h : r.Fits) : ofNode? (.ofValue r.toValue) = some r := by
  obtain ⟨fs, hfs, hfind⟩ := Node.fields?_ofFields r.names_fields (by decide)
  simp only [fields, List.forall_mem_cons] at hfind
  obtain ⟨hcount, hdelay, hcontinue, hbreak, -⟩ := hfind
  have hcount := Node.Fields.required_eq hcount (Node.nat?_ofNat h.count)
  have hdelay := Node.Fields.required_eq hdelay (Node.nat?_ofNat h.delay)
  have hcontinue := Node.Fields.optional_eq hcontinue (fun s _ => Node.text?_ofValue s) nofun
  have hbreak := Node.Fields.optional_eq hbreak (fun s _ => Node.text?_ofValue s) nofun
  rw [ofNode?, toValue_eq, hfs]
  simp [hcount, hdelay, hcontinue, hbreak]

theorem toValue_injective : Function.Injective toValue := by
  rintro ⟨_, _, _, _⟩ ⟨_, _, _, _⟩ h
  rw [toValue_eq, toValue_eq] at h
  have hfields := Value.ofFields_inj (names_fields _) (names_fields _) (by decide) h
  simp only [fields, List.cons.injEq, Prod.mk.injEq, true_and, and_true,
    Option.some.injEq] at hfields
  obtain ⟨hcount, hdelay, hcontinue, hbreak⟩ := hfields
  have htext := Option.map_injective Value.string_injective
  rw [mk.injEq]
  exact ⟨Value.ofNat_injective hcount, Value.ofNat_injective hdelay, htext hcontinue,
    htext hbreak⟩

end RetryPolicy

namespace Successor

theorem ofNode?_toValue : ∀ s : Successor, ofNode? (.ofValue s.toValue) = some s
  | .always _ => rfl
  | .when conditions => by
    have htable := Node.table?_ofTextTable conditions
    rw [toValue, ofNode?, htable]
    rfl

theorem toValue_injective : Function.Injective toValue
  | .always _, .always _, h => congrArg Successor.always (Value.string_injective h)
  | .when _, .when _, h => congrArg Successor.when (Value.ofTextTable_injective h)

end Successor

namespace Task

variable {t : Task}

/-- What the task is given is made of values that JSON can say: their numbers fit, and no object
has a name twice. -/
structure Fits (t : Task) : Prop where
  input : ∀ e ∈ t.input.entries, e.2.Fits ∧ e.2.Ordered
  retry : ∀ r ∈ t.retry, r.Fits

def fields (t : Task) : List (String × Option Value) :=
  [("action", some (.string t.action)),
   ("input", if t.input.isEmpty then none else some (.ofTable t.input)),
   ("publish", if t.publish.isEmpty then none else some (.ofTextTable t.publish)),
   ("retry", t.retry.map RetryPolicy.toValue),
   ("on-success",
    if t.onSuccess.isEmpty then none else some (.list (t.onSuccess.map Successor.toValue))),
   ("join", t.join.map .string)]

theorem names_fields (t : Task) : Entries.names t.fields
    = ["action", "input", "publish", "retry", "on-success", "join"] := rfl

theorem toValue_eq (t : Task) : t.toValue = .ofFields t.fields := by
  simp [toValue, Value.ofFields, fields, Value.fieldOf]

theorem ofNode?_toValue (h : t.Fits) : ofNode? (.ofValue t.toValue) = some t := by
  obtain ⟨fs, hfs, hfind⟩ := Node.fields?_ofFields t.names_fields (by decide)
  simp only [fields, List.forall_mem_cons] at hfind
  obtain ⟨haction, hinput, hpublish, hretry, hsuccess, hjoin, -⟩ := hfind
  have haction := Node.Fields.required_eq haction (Node.text?_ofValue _)
  have hinput := Node.Fields.withDefault_elided hinput Table.eq_empty_of_isEmpty
    (Node.table?_value h.input)
  have hpublish := Node.Fields.withDefault_elided hpublish Table.eq_empty_of_isEmpty
    (Node.table?_ofTextTable t.publish)
  have hretry := Node.Fields.optional_eq hretry
    (fun r hr => RetryPolicy.ofNode?_toValue (h.retry r hr)) nofun
  have hsuccess := Node.Fields.withDefault_elided hsuccess List.isEmpty_iff.1
    (Node.list?_list fun s _ => s.ofNode?_toValue)
  have hjoin := Node.Fields.optional_eq hjoin (fun s _ => Node.text?_ofValue s) nofun
  rw [ofNode?, toValue_eq, hfs]
  simp [haction, hinput, hpublish, hretry, hsuccess, hjoin]

theorem toValue_injective : Function.Injective toValue := by
  rintro ⟨_, _, _, _, _, _⟩ ⟨_, _, _, _, _, _⟩ h
  rw [toValue_eq, toValue_eq] at h
  have hfields := Value.ofFields_inj (names_fields _) (names_fields _) (by decide) h
  simp only [fields, List.cons.injEq, Prod.mk.injEq, true_and, and_true,
    Option.some.injEq] at hfields
  obtain ⟨haction, hinput, hpublish, hretry, hsuccess, hjoin⟩ := hfields
  have hinput := Value.elided_injective Value.ofTable_injective Table.eq_of_isEmpty hinput
  have hpublish := Value.elided_injective Value.ofTextTable_injective Table.eq_of_isEmpty hpublish
  have hsuccess := Value.elided_injective (Value.listOf_injective Successor.toValue_injective)
    eq_of_isEmpty hsuccess
  rw [mk.injEq]
  exact ⟨Value.string_injective haction, hinput, hpublish,
    Option.map_injective RetryPolicy.toValue_injective hretry, hsuccess,
    Option.map_injective Value.string_injective hjoin⟩

end Task

namespace Workflow

variable {w v : Workflow} {name target : String} {x : String}

/-- The tasks and the input of the workflow are made of values that JSON can say. -/
structure Fits (w : Workflow) : Prop where
  tasks : ∀ e ∈ w.tasks.entries, e.2.Fits
  inputValues : ∀ e ∈ w.inputValues.entries, e.2.Fits ∧ e.2.Ordered

def fields (w : Workflow) : List (String × Option Value) :=
  [("name", some (.string w.name)),
   ("version", some (.string w.version)),
   ("type", some (.string w.type)),
   ("input", some (.ofTexts w.input)),
   ("tasks", some w.tasksValue),
   ("output", some (.ofTextTable w.output)),
   ("input_values", some (.ofTable w.inputValues))]

theorem names_fields (w : Workflow) : Entries.names w.fields
    = ["name", "version", "type", "input", "tasks", "output", "input_values"] := rfl

/-- A workflow is read again as it was. -/
theorem ofNode?_toValue (h : w.Fits) : ofNode? (.ofValue w.toValue) = some w := by
  obtain ⟨fs, hfs, hfind⟩ := Node.fields?_ofFields w.names_fields (by decide)
  simp only [fields, List.forall_mem_cons] at hfind
  obtain ⟨hname, hversion, htype, hinput, htasks, houtput, hvalues, -⟩ := hfind
  have hname := Node.Fields.required_eq hname (Node.text?_ofValue _)
  have hversion := Node.Fields.required_eq hversion (Node.text?_ofValue _)
  have htype := Node.Fields.required_eq htype (Node.text?_ofValue _)
  have hinput := Node.Fields.required_eq hinput
    (Node.list?_list fun s _ => Node.text?_ofValue s)
  have htasks := Node.Fields.required_eq htasks
    (Node.table?_ofTable fun e he => Task.ofNode?_toValue (h.tasks e he))
  have houtput := Node.Fields.required_eq houtput (Node.table?_ofTextTable w.output)
  have hvalues : fs.withDefault "input_values" .empty (Node.table? Node.value?)
      = some w.inputValues := Node.Fields.withDefault_eq hvalues nofun fun v hv =>
    Option.some.inj hv ▸ Node.table?_value h.inputValues
  rw [ofNode?, show w.toValue = .ofFields w.fields from rfl, hfs]
  simp [hname, hversion, htype, hinput, htasks, houtput, hvalues]

/-- As text it is read again as well, if its numbers read as they are spelt. -/
theorem ofNode?_read_pretty (h : w.Fits) (hspelled : w.toValue.Spelled)
    (hdepth : (Node.ofValue w.toValue).depth ≤ Json.depthLimit) :
    (Json.read (Json.pretty w.toValue)).bind ofNode? = some w := by
  rw [Json.read_pretty_eq, Json.respell_eq_self_iff.2 hspelled, Option.bind_some, if_pos hdepth,
    Option.bind_some, ofNode?_toValue h]

/-! ## Definitions -/

/-- What the definition says under the name of the workflow, and what it leaves out. -/
def bodyFields (w : Workflow) : List (String × Option Value) :=
  [("type", some (.string w.type)),
   ("tasks", some w.tasksValue),
   ("input", if w.input.isEmpty then none else some (.ofTexts w.input)),
   ("output", if w.output.isEmpty then none else some (.ofTextTable w.output))]

theorem names_bodyFields (w : Workflow) :
    Entries.names w.bodyFields = ["type", "tasks", "input", "output"] := rfl

theorem body_eq (w : Workflow) : w.body = .ofFields w.bodyFields := by
  simp [body, Value.ofFields, bodyFields, Value.fieldOf]

theorem of_body_eq (h : w.body = v.body) :
    w.type = v.type ∧ w.input = v.input ∧ w.tasks = v.tasks ∧ w.output = v.output := by
  rw [body_eq, body_eq] at h
  have hfields := Value.ofFields_inj w.names_bodyFields v.names_bodyFields (by decide) h
  simp only [bodyFields, List.cons.injEq, Prod.mk.injEq, true_and, and_true,
    Option.some.injEq] at hfields
  obtain ⟨htype, htasks, hinput, houtput⟩ := hfields
  refine ⟨Value.string_injective htype, ?_, ?_, ?_⟩
  · exact Value.elided_injective (Value.listOf_injective Value.string_injective) eq_of_isEmpty
      hinput
  · exact Table.map_injective Task.toValue_injective (Value.ofTable_injective htasks)
  · exact Value.elided_injective Value.ofTextTable_injective Table.eq_of_isEmpty houtput

theorem member?_definition (hname : w.name ≠ "version") {u : Value} :
    w.definition.member? x = some u
      ↔ x = "version" ∧ u = .string w.version ∨ x = w.name ∧ u = w.body := by
  have hn : (Entries.names [("version", Value.string w.version), (w.name, w.body)]).Nodup := by
    simpa using hname.symm
  rw [definition, Value.ofMembers, Value.member?, Entries.get?_ofList_eq_some_iff hn]
  simp

/-- The definition says all of a workflow but its input values, if the name is not taken for the
version. -/
theorem of_definition_eq (hw : w.name ≠ "version") (hv : v.name ≠ "version")
    (h : w.definition = v.definition) :
    w.name = v.name ∧ w.version = v.version ∧ w.body = v.body := by
  have hversion : v.definition.member? "version" = some (.string w.version) :=
    h ▸ (member?_definition hw).2 (.inl ⟨rfl, rfl⟩)
  have hbody : v.definition.member? w.name = some w.body :=
    h ▸ (member?_definition hw).2 (.inr ⟨rfl, rfl⟩)
  rcases (member?_definition hv).1 hversion with ⟨-, hversion⟩ | ⟨hname, -⟩
  · rcases (member?_definition hv).1 hbody with ⟨hname, -⟩ | ⟨hname, hbody⟩
    · exact absurd hname hw
    · exact ⟨hname, Value.string_injective hversion, hbody⟩
  · exact absurd hname.symm hv

theorem name_ne_version {action : WorkflowAction} {ps : Table Value}
    (h : build target action ps = .ok w) : w.name ≠ "version" := by
  intro hname
  have hmem : '_' ∈ w.name.toList := by
    rw [(namedFor_build h).1]
    simp
  rw [hname] at hmem
  exact absurd hmem (by decide)

/-- A workflow is kept whole although its tasks leave things out, also as text if its numbers read
as they are spelt and it is not nested too deeply. And the definition of a standard workflow says
everything of it but the input it is started with. -/
theorem nothing_lost :
    (∀ w : Workflow, w.Fits → ofNode? (.ofValue w.toValue) = some w
      ∧ (w.toValue.Spelled → (Node.ofValue w.toValue).depth ≤ Json.depthLimit →
        (Json.read (Json.pretty w.toValue)).bind ofNode? = some w))
    ∧ ∀ (t₁ t₂ : String) (a₁ a₂ : WorkflowAction) (ps₁ ps₂ : Table Value) (w₁ w₂ : Workflow),
      build t₁ a₁ ps₁ = .ok w₁ → build t₂ a₂ ps₂ = .ok w₂ → w₁.definition = w₂.definition →
        w₁.name = w₂.name ∧ w₁.version = w₂.version ∧ w₁.type = w₂.type ∧ w₁.input = w₂.input
          ∧ w₁.tasks = w₂.tasks ∧ w₁.output = w₂.output := by
  refine ⟨fun w h => ⟨ofNode?_toValue h, ofNode?_read_pretty h⟩,
    fun t₁ t₂ a₁ a₂ ps₁ ps₂ w₁ w₂ h₁ h₂ h => ?_⟩
  obtain ⟨hname, hversion, hbody⟩ := of_definition_eq (name_ne_version h₁) (name_ne_version h₂) h
  exact ⟨hname, hversion, of_body_eq hbody⟩

/-- A workflow with a task that leaves out everything, and one that leaves out hardly anything. -/
def motley : Workflow :=
  { named "motley" with
    tasks := .ofList
      [("halt", .new "nimbus.halt"),
       ("start", {
          action := "nimbus.start"
          input := .ofList [
            ("sizes", .list [.int (-1), .null, .object [("get_input", .bool true)]])]
          publish := .ofList [("id", "<% task().result %>")]
          retry := some ⟨3, 10, none, some "<% $.done %>"⟩
          onSuccess := [.always "halt", .when (.ofList [("halt", "<% $.late %>")])]
          join := some "all" })]
    inputValues := .ofList [("body", .object [])] }

/-- How it is kept. -/
def motleyValue : Value :=
  .object
    [("input", .list []), ("input_values", .object [("body", .object [])]),
     ("name", .string "motley"), ("output", .object []),
     ("tasks", .object
        [("halt", .object [("action", .string "nimbus.halt")]),
         ("start", .object
            [("action", .string "nimbus.start"),
             ("input", .object
                [("sizes", .list [.int (-1), .null, .object [("get_input", .bool true)]])]),
             ("join", .string "all"),
             ("on-success", .list [.string "halt", .object [("halt", .string "<% $.late %>")]]),
             ("publish", .object [("id", .string "<% task().result %>")]),
             ("retry", .object
                [("break-on", .string "<% $.done %>"), ("count", .int 3), ("delay", .int 10)])])]),
     ("type", .string "direct"), ("version", .string "2.0")]

theorem motley_fits : motley.Fits where
  tasks e he := by
    have he : e ∈ _ := Entries.mem_of_mem_ofList he
    simp only [List.mem_cons, List.not_mem_nil, or_false] at he
    rcases he with rfl | rfl
    · exact ⟨List.forall_mem_nil _, fun _ h => absurd h (Option.not_mem_none _)⟩
    · refine ⟨fun m hm => ?_, fun r hr => ?_⟩
      · obtain rfl := List.mem_singleton.1 hm
        refine ⟨?_, ?_⟩
        · simp +decide [Value.fits_list, Value.fits_object, Value.fits_int, Value.Fits.null,
            Value.Fits.bool]
        · simp [Value.Ordered, Value.OrderedItems, Value.OrderedMembers]
      · cases hr
        exact ⟨by decide, by decide⟩
  inputValues e he := by
    obtain rfl := List.mem_singleton.1 he
    exact ⟨.object (List.forall_mem_nil _), Value.ordered_object.2 ⟨.nil, List.forall_mem_nil _⟩⟩

/-- Parameters to take a workload down with. -/
def teardownParameters (id : String) : Table Value := .ofList [("workload_id", .string id)]

theorem exists_build_teardown (target id : String) :
    ∃ w, build target .teardown (teardownParameters id) = .ok w := by
  rcases (settles_teardown target (teardownParameters id)).validated with ⟨-, w, hw, -⟩ | ⟨hnot, -⟩
  · exact ⟨w, hw⟩
  · exact absurd rfl hnot

/-- The motley workflow is kept, and workloads that go by another identifier are taken down by the
same definition. -/
theorem teardown_defined_alike : motley.toValue = motleyValue
    ∧ ofNode? (.ofValue motleyValue) = some motley
    ∧ (Json.read (Json.pretty motleyValue)).bind ofNode? = some motley
    ∧ ∃ w₁ w₂, build "web" .teardown (teardownParameters "a") = .ok w₁
      ∧ build "web" .teardown (teardownParameters "b") = .ok w₂ ∧ w₁.definition = w₂.definition
      ∧ w₁.tasks = w₂.tasks ∧ w₁.inputValues ≠ w₂.inputValues := by
  obtain ⟨w₁, h₁⟩ := exists_build_teardown "web" "a"
  obtain ⟨w₂, h₂⟩ := exists_build_teardown "web" "b"
  have halike : w₁.definition = w₂.definition ∧ w₁.inputValues ≠ w₂.inputValues := by
    have h₁ := of_validated h₁
    have h₂ := of_validated h₂
    cases h₁
    cases h₂
    refine ⟨rfl, fun h => ?_⟩
    have hid : some (Value.string "a") = some (Value.string "b") :=
      congrArg (fun t : Table Value => t.get? "id_web") h
    simp at hid
  obtain ⟨-, -, -, -, htasks, -⟩ := nothing_lost.2 _ _ _ _ _ _ _ _ h₁ h₂ halike.1
  obtain ⟨hkept, hread⟩ := nothing_lost.1 motley motley_fits
  have hspelled : motleyValue.Spelled := by
    simp +decide [motleyValue, Value.spelled_object, Value.spelled_list, Value.spelled_int,
      Value.Spelled.null, Value.Spelled.bool, Value.Spelled.string]
  exact ⟨rfl, hkept, hread hspelled (by decide +kernel), w₁, w₂, h₁, h₂, halike.1, htasks,
    halike.2⟩

end Workflow

end Provision
