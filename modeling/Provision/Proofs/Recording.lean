import Provision.Proofs.Compositional
import Provision.Proofs.Relocating

/-!
# What is remembered makes no difference

A catalog that always answers a resource type the same way is asked for it through a memo. To see
how often, it keeps a record (`Catalog.recording`). What adapting comes to does not depend on what
is remembered, a type that was answered is not asked for again (`Logs`), and what has been adapted
is left alone. A compilation asks for nothing but ports, and stops if it is not answered, so there
is one entry on the record at most (`records_compile`).
-/

namespace Provision

open MonadAttach LawfulMonadAttach

/-- The catalog that gives the answers, and records the types that it is asked for. -/
def Catalog.recording (answer : String → Except ServiceError NameSet) :
    Catalog (StateM (List String)) where
  supported type := do
    modify (· ++ [type])
    return answer type

/-- Adapts the resources in turn, whatever has come of those before. -/
def Resource.adaptAll {m : Type → Type} [Monad m] (catalog : Catalog m) :
    List (String × Resource) → SupportMemo → m (List Adapted)
  | [], _ => pure []
  | (name, r) :: rs, memo => do
    let a ← r.adapt catalog name memo
    let as ← adaptAll catalog rs a.memo
    return a :: as

variable {answer : String → Except ServiceError NameSet}

theorem canReturn_run {σ α : Type} (x : StateM σ α) (s : σ) : CanReturn x (x.run s).1 :=
  ⟨s, (x.run s).2, rfl⟩

theorem run_bind {σ α β : Type} (x : StateM σ α) (f : α → StateM σ β) (s : σ) :
    (x >>= f).run s = (f (x.run s).1).run (x.run s).2 :=
  rfl

theorem answers_recording : (Catalog.recording answer).Answers answer := by
  intro type result h
  obtain ⟨_, -, h⟩ := canReturn_bind_imp' h
  exact (eq_of_canReturn_pure (m := StateM (List String)) h).symm

theorem outcomes_of_adaptAll {m : Type → Type} [Monad m] [LawfulMonad m] [MonadAttach m]
    [LawfulMonadAttach m] {catalog : Catalog m} (hcat : catalog.Answers answer)
    {rs : List (String × Resource)} {memo : SupportMemo} {as : List Adapted}
    (hm : memo.Recalls answer) (h : CanReturn (Resource.adaptAll catalog rs memo) as) :
    as.map Adapted.outcome = rs.map fun e => e.2.adapted answer e.1 fallbacks := by
  induction rs generalizing memo as with
  | nil =>
    cases eq_of_canReturn_pure h
    rfl
  | cons e rs ih =>
    obtain ⟨a, ha, h⟩ := canReturn_bind_imp' h
    obtain ⟨as, has, h⟩ := canReturn_bind_imp' h
    cases eq_of_canReturn_pure h
    obtain ⟨houtcome, hm⟩ := (Resource.adaptsTo_of_canReturn ha).outcome hcat hm
    rw [List.map_cons, List.map_cons, houtcome, ih hm has]

/-! ## The record -/

/-- Every type that was answered is on the record once, and is remembered. -/
def Logs (answer : String → Except ServiceError NameSet) (memo : SupportMemo)
    (asked : List String) : Prop :=
  ∀ type properties, answer type = .ok properties →
    asked.count type = if memo.contains type then 1 else 0

theorem logs_empty : Logs answer .empty [] := fun _ _ _ => rfl

section Run

variable {memo : SupportMemo} {asked : List String} {type : String}

theorem run_supported : (memo.supported (Catalog.recording answer) type).run asked
    = match memo.get? type with
      | some properties => (.ok (properties, memo), asked)
      | none => ((answer type).map fun properties => (properties, memo.put type properties),
          asked ++ [type]) := by
  have hasked : ((Catalog.recording answer).supported type).run asked
      = (answer type, asked ++ [type]) := rfl
  unfold SupportMemo.supported
  rcases memo.get? type with _ | properties
  · dsimp only
    rw [run_bind, hasked]
    rcases answer type with e | properties
    · rfl
    · rfl
  · rfl

theorem Logs.unanswered (h : Logs answer memo asked) {e : ServiceError}
    (hans : answer type = .error e) : Logs answer memo (asked ++ [type]) := by
  intro t properties ht
  have hne : type ≠ t := by
    rintro rfl
    cases hans.symm.trans ht
  rw [List.count_append, List.count_singleton, if_neg (by simpa using hne)]
  exact h t properties ht

theorem Logs.answered (h : Logs answer memo asked) (hnew : memo.get? type = none)
    {properties : NameSet} : Logs answer (memo.put type properties) (asked ++ [type]) := by
  intro t properties' ht
  rw [List.count_append, List.count_singleton, h t properties' ht, Table.contains, Table.contains,
    Table.get?_put]
  by_cases hne : t = type
  · subst hne
    simp [hnew]
  · simp [hne, Ne.symm hne]

theorem Logs.supported (h : Logs answer memo asked) (type : String) :
    match (memo.supported (.recording answer) type).run asked with
    | (.ok (_, memo'), asked') => Logs answer memo' asked'
    | (.error _, asked') => Logs answer memo asked' := by
  rw [run_supported]
  rcases hget : memo.get? type with _ | properties
  · rcases hans : answer type with e | properties
    · exact h.unanswered hans
    · exact h.answered hget
  · exact h

theorem Logs.adaptBy {name : String} {fs : List Fallback} {r : Resource}
    (h : Logs answer memo asked) :
    Logs answer ((r.adaptBy (.recording answer) name fs memo).run asked).1.memo
      ((r.adaptBy (.recording answer) name fs memo).run asked).2 := by
  induction fs generalizing r memo asked with
  | nil => exact h
  | cons f fs ih =>
    rw [Resource.adaptBy]
    split
    · exact ih h
    · rename_i value _
      have hasked := h.supported f.type
      rw [run_bind]
      rcases hrun : (memo.supported (.recording answer) f.type).run asked with
        ⟨e | ⟨properties, memo'⟩, asked'⟩ <;> rw [hrun] at hasked
      · exact hasked
      · dsimp only at hasked ⊢
        split
        · exact ih hasked
        · split
          · exact ih hasked
          · exact hasked

theorem Logs.adaptAll (h : Logs answer memo asked) (rs : List (String × Resource)) :
    ∃ memo', Logs answer memo' ((Resource.adaptAll (.recording answer) rs memo).run asked).2 := by
  induction rs generalizing memo asked with
  | nil => exact ⟨memo, h⟩
  | cons e rs ih =>
    rw [Resource.adaptAll, run_bind, run_bind]
    exact ih h.adaptBy

end Run

/-! ## What has been adapted -/

/-- A resource that has been adapted without a fault is left as it is. -/
theorem Resource.adapted_adapted {name name' : String} {f : Fallback} {r r' : Resource}
    (hp : f.property ≠ f.passthrough) (h : r.adapted answer name [f] = (r', none)) :
    r'.adapted answer name' [f] = (r', none) := by
  rw [adapted] at h ⊢
  rcases hvalue : r.concern? f with _ | value <;> rw [hvalue] at h
  · cases h
    rw [hvalue]
    rfl
  · rcases hans : answer f.type with e | properties <;> rw [hans] at h
    · cases h
    · dsimp only at h
      split at h
      · rename_i hhas
        cases h
        simp only [hvalue, if_pos hhas]
        rfl
      · split at h
        · rename_i nested hnest
          cases h
          have hgone := get?_property_nest r name value hp
          rw [hnest] at hgone
          rw [concern?, hgone, ite_self]
          rfl
        · cases h

/-! ## The record of a compilation -/

namespace Compile

section Records

variable {α β : Type}

/-- After the step the record is as `Q` says, unless the compilation ends with it; then the catalog
has been asked for ports once at most. -/
def Records (asked : List String) (x : ExceptT Fault (StateM (List String)) α)
    (Q : α → List String → Prop) : Prop :=
  match x.run.run asked with
  | (.ok a, asked') => Q a asked'
  | (.error _, asked') => asked' = [] ∨ asked' = [portType]

variable {asked : List String} {Q : α → List String → Prop} {R : β → List String → Prop}

theorem records_pure {a : α} (h : Q a asked) : Records asked (pure a) Q := h

theorem records_lift {x : StateM (List String) α} (h : Q (x.run asked).1 (x.run asked).2) :
    Records asked (ExceptT.lift x) Q :=
  h

theorem records_throw {fault : Fault} (h : asked = [] ∨ asked = [portType]) :
    Records asked (throw fault) Q := h

theorem Records.bind {x : ExceptT Fault (StateM (List String)) α}
    {f : α → ExceptT Fault (StateM (List String)) β} (hx : Records asked x Q)
    (hf : ∀ a asked', Q a asked' → Records asked' (f a) R) : Records asked (x >>= f) R := by
  unfold Records at hx ⊢
  rw [ExceptT.run_bind, run_bind]
  rcases hrun : x.run.run asked with ⟨e | a, asked'⟩ <;> rw [hrun] at hx
  · exact hx
  · exact hf a asked' hx

/-- A step that asks for nothing. -/
theorem records_liftM_bind {x : Except Fault α}
    {f : α → ExceptT Fault (StateM (List String)) β} (h : asked = [] ∨ asked = [portType])
    (hf : ∀ a, x = .ok a → Records asked (f a) R) : Records asked (liftM x >>= f) R := by
  rcases x with e | a
  · exact h
  · exact hf a rfl

theorem Records.imp {Q' : α → List String → Prop} {x : ExceptT Fault (StateM (List String)) α}
    (hx : Records asked x Q) (h : ∀ a asked', Q a asked' → Q' a asked') : Records asked x Q' := by
  unfold Records at hx ⊢
  rcases hrun : x.run.run asked with ⟨e | a, asked'⟩ <;> rw [hrun] at hx
  · exact hx
  · exact h a asked' hx

end Records

/-- Either nothing has been asked for yet, or ports have, once, and are remembered. -/
def AskedOnce (memo : SupportMemo) (asked : List String) : Prop :=
  (asked = [] ∧ memo.contains portType = false)
    ∨ (asked = [portType] ∧ memo.contains portType = true)

section Steps

variable {memo : SupportMemo} {asked : List String}

theorem AskedOnce.few (h : AskedOnce memo asked) : asked = [] ∨ asked = [portType] :=
  h.imp And.left And.left

/-- Every port has the property that may have to be moved, so what ports can have is asked for
unless it is remembered. -/
theorem records_adapt (h : AskedOnce memo asked) {r : PortRequest} {port : Port}
    (hport : r.port = .ok port) {name : String} :
    Records asked (ExceptT.lift (port.resource.adapt (.recording answer) name memo)) fun a asked' =>
      asked' = [portType] ∧ (a.fault = none → a.memo.contains portType = true) := by
  obtain ⟨f, hf⟩ : ∃ f, f ∈ fallbacks := ⟨_, List.mem_singleton_self _⟩
  obtain ⟨hone, htype⟩ : fallbacks = [f] ∧ f.type = portType := by
    obtain rfl := List.mem_singleton.1 hf
    exact ⟨rfl, rfl⟩
  have hconcern : port.resource.concern? f = some (r.said f) :=
    Resource.concern?_eq_some_iff.2
      ⟨(of_port hport).2.1.trans htype.symm, PortRequest.get?_property_port hf hport⟩
  apply records_lift
  rw [Resource.adapt, hone, Resource.adaptBy, hconcern]
  dsimp only
  rw [run_bind, run_supported, htype]
  rcases h with ⟨rfl, hm⟩ | ⟨rfl, hm⟩
  · rw [Table.contains, Option.isSome_eq_false_iff, Option.isNone_iff_eq_none] at hm
    rw [hm]
    rcases answer portType with e | properties
    · exact ⟨rfl, fun hnone => absurd hnone (Option.some_ne_none _)⟩
    · have hput : (memo.put portType properties).contains portType = true :=
        Table.contains_of_get? (Table.get?_put.trans (if_pos rfl))
      dsimp only [Except.map]
      split
      · exact ⟨rfl, fun _ => hput⟩
      · split
        · exact ⟨rfl, fun _ => hput⟩
        · exact ⟨rfl, fun _ => hput⟩
  · obtain ⟨properties, hget⟩ := Table.contains_iff.1 hm
    rw [hget]
    dsimp only
    split
    · exact ⟨rfl, fun _ => hm⟩
    · split
      · exact ⟨rfl, fun _ => hm⟩
      · exact ⟨rfl, fun _ => hm⟩

theorem records_addPorts {requests : List PortRequest} {g : ResourceGraph}
    (h : AskedOnce memo asked) :
    Records asked (addPorts (.recording answer) requests g memo) fun done asked' =>
      AskedOnce done.2 asked' ∧ (asked' = [] ↔ asked = [] ∧ requests = []) := by
  induction requests generalizing g memo asked with
  | nil => exact ⟨h, by simp⟩
  | cons r rs ih =>
    refine records_liftM_bind h.few fun port hport => ?_
    refine (records_adapt h hport).bind fun adapted asked' hadapted => ?_
    obtain ⟨rfl, hm⟩ := hadapted
    extract_lets g' rest
    rcases hfault : adapted.fault with _ | fault
    · refine records_liftM_bind (.inr rfl) fun g'' _ => ?_
      refine (ih (.inr ⟨rfl, hm hfault⟩)).imp fun done asked' hdone => ?_
      simpa using hdone
    · have hthrow : Records [portType] (throw fault : ExceptT Fault (StateM (List String)) PUnit)
          fun _ _ => False := records_throw (.inr rfl)
      exact hthrow.bind fun _ _ h => h.elim

theorem records_addCompute {d : Descriptor} {s : Substitution} {settings : CompilerSettings}
    {points : List (String × ConnectionPoint)} {name : String} {c : Compute} {g : ResourceGraph}
    (hpoints : points.Perm (d.points name)) (h : AskedOnce memo asked) :
    Records asked (addCompute settings (.recording answer) d points s name c g memo)
      fun done asked' => AskedOnce done.2 asked'
        ∧ (asked' = [] ↔ asked = [] ∧ d.portNames name c = []) := by
  refine records_liftM_bind h.few fun (g₁, server₁) _ => ?_
  refine records_liftM_bind h.few fun (g₂, server₂) _ => ?_
  refine records_liftM_bind h.few fun server₃ _ => ?_
  refine records_liftM_bind h.few fun requests hrequests => ?_
  refine (records_addPorts h).bind fun done asked' hdone => ?_
  refine records_liftM_bind hdone.1.few fun g₄ _ => records_pure ⟨hdone.1, ?_⟩
  have hnames := names_perm (of_portRequests hrequests hpoints).1
  rw [hdone.2, ← List.length_eq_zero_iff (l := d.portNames name c), ← hnames.length_eq,
    List.length_map, List.length_eq_zero_iff]

theorem records_addComputes {d : Descriptor} {s : Substitution} {settings : CompilerSettings}
    {points : PointsByCompute} {cs : List (String × Compute)} {done : Compiled}
    (hpoints : ∀ compute, ((points.get? compute).getD []).Perm (d.points compute))
    (h : AskedOnce memo asked) :
    Records asked (addComputes settings (.recording answer) d points s cs done memo)
      fun _ asked' => (asked' = [] ∨ asked' = [portType])
        ∧ (asked' = [] ↔ asked = [] ∧ ∀ e ∈ cs, d.portNames e.1 e.2 = []) := by
  induction cs generalizing done memo asked with
  | nil => exact ⟨h.few, by simp⟩
  | cons e cs ih =>
    obtain ⟨name, c⟩ := e
    refine (records_addCompute (hpoints name) h).bind fun (g, memo') asked' hfirst => ?_
    refine records_liftM_bind hfirst.1.few fun monitoring _ => ?_
    refine (ih hfirst.1).imp fun done' asked'' hrest => ⟨hrest.1, ?_⟩
    rw [hrest.2, hfirst.2, List.forall_mem_cons, and_assoc]

theorem records_compile {d : Descriptor} {settings : CompilerSettings}
    {parameters : Option Parameters} :
    Records [] (d.compile settings parameters (.recording answer)) fun _ asked =>
      (asked = [] ∨ asked = [portType])
        ∧ (asked = [] ↔ ∀ e ∈ d.computes, d.portNames e.1 e.2 = []) := by
  refine records_liftM_bind (.inl rfl) fun s _ => ?_
  refine records_liftM_bind (.inl rfl) fun filed hfiled => ?_
  have hpoints := (of_pointsByCompute hfiled).2
  refine (records_addComputes (fun compute => hpoints compute ▸ List.mergeSort_perm _ _)
    (.inl ⟨rfl, rfl⟩)).bind fun done asked hdone => ?_
  refine records_liftM_bind hdone.1 fun g _ => ?_
  refine records_liftM_bind hdone.1 fun _ _ => ?_
  exact records_pure ⟨hdone.1, by simpa using hdone.2⟩

end Steps

end Compile

namespace Descriptor

/-- A graph has ports only if some compute component has. -/
theorem CompilesTo.hasPort_iff {d : Descriptor} {g : ResourceGraph} (h : d.CompilesTo g) :
    (∃ name port, g.resource? name = some port ∧ port.type = portType)
      ↔ ¬∀ e ∈ d.computes, d.portNames e.1 e.2 = [] := by
  have hown : ∀ e : String × Compute, ∀ name,
      (name, portType) ∈ d.ownResources e.1 e.2 ↔ name ∈ d.portNames e.1 e.2 := by
    intro e name
    have hserver : portType ≠ serverType := by decide
    have hflavor : portType ≠ flavorType := by decide
    have himage : portType ≠ imageType := by decide
    simp [ownResources, Compute.ownFlavor, Compute.ownImage, hserver, hflavor, himage]
  have hstorage : ∀ name, (name, portType) ∉ (d.select Component.storage?).flatMap fun e =>
      [(e.1, volumeType), (attachmentName e.1, attachmentType)] := by
    intro name
    have hvolume : portType ≠ volumeType := by decide
    have hattachment : portType ≠ attachmentType := by decide
    simp [hvolume, hattachment]
  simp only [← ResourceGraph.mem_typed, h.resources.mem_iff, List.mem_append, hstorage, or_false,
    List.mem_flatMap, hown, List.eq_nil_iff_forall_not_mem, not_forall, not_not]
  constructor
  · rintro ⟨name, e, he, hname⟩
    exact ⟨e, he, name, hname⟩
  · rintro ⟨e, he, name, hname⟩
    exact ⟨name, e, he, hname⟩

theorem asked_of_compile {d : Descriptor} {settings : CompilerSettings}
    {parameters : Option Parameters} {result : Except Fault Compiled} {asked : List String}
    (h : (d.compile settings parameters (.recording answer)).run.run [] = (result, asked)) :
    asked.length ≤ 1 ∧ ∀ compiled, result = .ok compiled →
      (asked.length = 1
        ↔ ∃ name port, compiled.graph.resource? name = some port ∧ port.type = portType) := by
  have hrecords : Compile.Records [] (d.compile settings parameters (.recording answer)) _ :=
    Compile.records_compile
  unfold Compile.Records at hrecords
  rw [h] at hrecords
  rcases result with fault | compiled
  · refine ⟨?_, fun _ h => nomatch h⟩
    rcases hrecords with rfl | rfl
    · exact Nat.zero_le 1
    · exact Nat.le_refl 1
  · obtain ⟨hfew, hnone⟩ := hrecords
    have hreturn : CanReturn (d.compile settings parameters (.recording answer)) compiled :=
      ⟨[], asked, h⟩
    have hport := (of_compile hreturn).hasPort_iff
    rw [← hnone] at hport
    rcases hfew with rfl | rfl
    · refine ⟨Nat.zero_le 1, ?_⟩
      rintro _ ⟨⟩
      exact iff_of_false Nat.zero_ne_one fun h => hport.1 h rfl
    · refine ⟨Nat.le_refl 1, ?_⟩
      rintro _ ⟨⟩
      exact iff_of_true rfl (hport.2 (List.cons_ne_nil _ _))

end Descriptor

/-- How little can be noticed of the memo if the catalog gives the same answers all the time. -/
structure SupportMemo.Transparent (answer : String → Except ServiceError NameSet) : Prop where
  /-- With one memo for all of them, resources are adapted as with a new one for each. -/
  outcomes : ∀ rs, ((Resource.adaptAll (.recording answer) rs .empty).run []).1.map Adapted.outcome
    = rs.map fun e => ((e.2.adapt (.recording answer) e.1 .empty).run []).1.outcome
  /-- A type that was answered is not asked for again. -/
  asked : ∀ rs type properties, answer type = .ok properties →
    ((Resource.adaptAll (.recording answer) rs .empty).run []).2.count type ≤ 1
  /-- Only properties with a fallback for the type are touched, and what passes them through. -/
  untouched : ∀ name (r : Resource) memo asked a,
    ((r.adapt (.recording answer) name memo).run asked).1 = a →
    a.resource.type = r.type ∧ ∀ key,
      (∀ f ∈ fallbacks, f.type = r.type → key ≠ f.property ∧ key ≠ f.passthrough) →
        a.resource.properties.get? key = r.properties.get? key
  /-- What has been adapted once is left as it is, with the same memo or another one. -/
  again : ∀ name (r : Resource) memo asked a,
    ((r.adapt (.recording answer) name memo).run asked).1 = a → memo.Recalls answer →
    a.fault = none → a.memo.Recalls answer ∧ ∀ name' memo' asked', memo'.Recalls answer →
      ((a.resource.adapt (.recording answer) name' memo').run asked').1.outcome = (a.resource, none)
  /-- A compilation asks once at most, and if it succeeds it does so if and only if there are
  ports. -/
  compiled : ∀ (d : Descriptor) settings parameters result asked,
    (d.compile settings parameters (.recording answer)).run.run [] = (result, asked) →
    asked.length ≤ 1 ∧ ∀ compiled, result = .ok compiled →
      (asked.length = 1
        ↔ ∃ name port, compiled.graph.resource? name = some port ∧ port.type = portType)

theorem SupportMemo.transparent (answer : String → Except ServiceError NameSet) :
    Transparent answer := by
  have hadapts : ∀ name (r : Resource) memo asked,
      r.AdaptsTo (.recording answer) name fallbacks memo
        ((r.adapt (.recording answer) name memo).run asked).1 :=
    fun name r memo asked => Resource.adaptsTo_of_canReturn (canReturn_run _ asked)
  have houtcome : ∀ name (r : Resource) memo asked, memo.Recalls answer →
      ((r.adapt (.recording answer) name memo).run asked).1.outcome
        = r.adapted answer name fallbacks
      ∧ ((r.adapt (.recording answer) name memo).run asked).1.memo.Recalls answer :=
    fun name r memo asked hm => (hadapts name r memo asked).outcome answers_recording hm
  refine
    { outcomes := fun rs => ?_
      asked := fun rs type properties htype => ?_
      untouched := ?_
      again := ?_
      compiled := fun d settings parameters result asked hrun => ?_ }
  · rw [outcomes_of_adaptAll answers_recording recalls_empty (canReturn_run _ [])]
    exact List.map_congr_left fun e _ => (houtcome e.1 e.2 .empty [] recalls_empty).1.symm
  · have hempty : Logs answer .empty [] := logs_empty
    obtain ⟨memo, hlogs⟩ := hempty.adaptAll rs
    rw [hlogs type properties htype]
    split
    · exact Nat.le_refl 1
    · exact Nat.zero_le 1
  · rintro name r memo asked a rfl
    exact ⟨(hadapts name r memo asked).type, fun key => (hadapts name r memo asked).untouched⟩
  · rintro name r memo asked a rfl hm hok
    obtain ⟨hfirst, hrecalls⟩ := houtcome name r memo asked hm
    refine ⟨hrecalls, fun name' memo' asked' hm' => ?_⟩
    rw [(houtcome name' _ memo' asked' hm').1]
    rw [Adapted.outcome, hok] at hfirst
    exact Resource.adapted_adapted (Resource.property_ne_passthrough (List.mem_singleton_self _))
      hfirst.symm
  · exact Descriptor.asked_of_compile hrun

end Provision
