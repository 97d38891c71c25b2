import Provision.Plan
import Provision.Proofs.Adapting
import Provision.Proofs.Inputs

/-!
# Inputs are settled up front

Resolving a leaf looks up only what the leaf mentions (`resolve_settled`), and every leaf that is
resolved on the way to a plan is one that some component holds. So once a substitution has been
prepared no later step fails for want of an input, and if it cannot be prepared no other step is
taken (`prepare_settles`).
-/

namespace Provision

open MonadAttach LawfulMonadAttach

/-- The fault says that an input has no value. -/
def Fault.isWant : Fault → Bool
  | .missingParameter _ => true
  | .unresolvedInput _ => true
  | _ => false

section Settled

variable {α β : Type}

/-- The step does not fail for want of an input. -/
def Settled (x : Except Fault α) : Prop := ∀ fault, x = .error fault → fault.isWant = false

theorem settled_pure {a : α} : Settled (pure a) := fun _ h => nomatch h

theorem settled_throw {fault : Fault} (h : fault.isWant = false) :
    Settled (throw fault : Except Fault α) := by
  rintro _ ⟨⟩
  exact h

theorem Settled.bind {x : Except Fault α} {f : α → Except Fault β} (hx : Settled x)
    (hf : ∀ a, Settled (f a)) : Settled (x >>= f) := by
  rcases x with fault | a
  · rintro _ ⟨⟩
    exact hx fault rfl
  · exact hf a

theorem settled_mapError {ε : Type} {x : Except ε α} {f : ε → Fault}
    (h : ∀ e, (f e).isWant = false) : Settled (x.mapError f) := by
  rcases x with e | a
  · exact settled_throw (h e)
  · exact settled_pure

theorem settled_mapM {f : α → Except Fault β} :
    ∀ {xs : List α}, (∀ x ∈ xs, Settled (f x)) → Settled (xs.mapM f)
  | [], _ => settled_pure
  | x :: xs, h => by
    rw [List.mapM_cons]
    refine (h x List.mem_cons_self).bind fun _ => ?_
    exact (settled_mapM fun y hy => h y (List.mem_cons_of_mem _ hy)).bind fun _ => settled_pure

theorem settled_traverse {f : String → α → Except Fault β} {t : Table α}
    (h : ∀ key a, t.get? key = some a → Settled (f key a)) : Settled (t.traverse f) := by
  suffices ∀ es : List (String × α), (∀ e ∈ es, Settled (f e.1 e.2)) →
      Settled (Entries.traverse f es) from
    (this t.entries fun e he => h e.1 e.2 (Table.mem_entries.1 he)).bind fun _ => settled_pure
  intro es h
  induction es with
  | nil => exact settled_pure
  | cons e es ih =>
    obtain ⟨he, h⟩ := List.forall_mem_cons.1 h
    exact he.bind fun _ => (ih h).bind fun _ => settled_pure

end Settled

namespace Substitution

variable {s : Substitution}

/-- Every input that the leaf mentions has a value. -/
def Covers (s : Substitution) (l : Leaf) : Prop := ∀ name, l.Mentions name → s.HasValue name

mutual

theorem resolve_settled : ∀ {l : Leaf}, s.Covers l → Settled (s.resolve l)
  | .input name, h => by
    obtain ⟨v, hv⟩ := h name (.input name)
    rw [resolve, hv]
    exact settled_pure
  | .list xs, h => by
    rw [resolve]
    have hxs : ∀ x ∈ xs, s.Covers x := fun x hx name hn => h name (.item hx hn)
    exact (resolveItems_settled hxs).bind fun _ => settled_pure
  | .map es, h => by
    rw [resolve]
    have hes : ∀ e ∈ es, s.Covers e.2 := fun e he name hn => h name (.entry he hn)
    exact (resolveEntries_settled hes).bind fun _ => settled_pure
  | .null, _ | .bool _, _ | .int _, _ | .float _, _ | .string _, _ => by
    rw [resolve]
    exact settled_pure

theorem resolveItems_settled :
    ∀ {xs : List Leaf}, (∀ x ∈ xs, s.Covers x) → Settled (s.resolveItems xs)
  | [], _ => by
    rw [resolveItems]
    exact settled_pure
  | x :: xs, h => by
    obtain ⟨hx, h⟩ := List.forall_mem_cons.1 h
    rw [resolveItems]
    exact (resolve_settled hx).bind fun _ => (resolveItems_settled h).bind fun _ => settled_pure

theorem resolveEntries_settled :
    ∀ {es : List (String × Leaf)}, (∀ e ∈ es, s.Covers e.2) → Settled (s.resolveEntries es)
  | [], _ => by
    rw [resolveEntries]
    exact settled_pure
  | (key, x) :: es, h => by
    obtain ⟨hx, h⟩ := List.forall_mem_cons.1 h
    rw [resolveEntries]
    exact (resolve_settled hx).bind fun _ => (resolveEntries_settled h).bind fun _ => settled_pure

end

theorem resolveOption_settled {o : Option Leaf} (h : ∀ l, o = some l → s.Covers l) :
    Settled (s.resolveOption o) := by
  rcases o with _ | l
  · exact settled_pure
  · exact (resolve_settled (h l rfl)).bind fun _ => settled_pure

theorem resolveTable_settled {t : Table Leaf} (h : ∀ key l, t.get? key = some l → s.Covers l) :
    Settled (s.resolveTable t) :=
  settled_traverse fun key l hl => resolve_settled (h key l hl)

theorem resolveProperties_settled {t : Table Leaf}
    (h : ∀ key l, t.get? key = some l → s.Covers l) : Settled (s.resolveProperties t) :=
  (resolveTable_settled h).bind fun _ => settled_pure

/-- A prepared substitution covers every leaf of the descriptor. -/
theorem covers_of_prepare {d : Descriptor} {parameters : Option Parameters}
    (h : prepare d parameters = .ok s) {name : String} {c : Component}
    (hc : d.components.get? name = some c) {l : Leaf} (hl : c.Holds l) : s.Covers l := by
  intro input hn
  have hm : d.Mentions input := ⟨name, c, l, hc, hl, hn⟩
  rcases parameters with _ | table
  · exact absurd hm (prepare_none_eq_ok_iff.1 ⟨s, h⟩ input)
  · have hv := hasValue_iff.2 (prepare_some_eq_ok_iff.1 ⟨s, h⟩ input hm)
    rw [prepare_some, bind_eq_ok_iff] at h
    obtain ⟨_, -, h⟩ := h
    cases h
    exact hv

end Substitution

section Parts

variable {s : Substitution} {compute : String}

theorem number_settled {field : String} {leaf : Option Leaf} {read? : Value → Option Int}
    {dflt : Int} (h : ∀ l, leaf = some l → s.Covers l) :
    Settled (Capabilities.number compute field s leaf read? dflt) := by
  refine (Substitution.resolveOption_settled h).bind fun o => ?_
  rcases o with _ | v
  · exact settled_pure
  · dsimp only
    split
    · exact settled_pure
    · exact settled_throw rfl

theorem pageSize_settled {v : Value} : Settled (Capabilities.pageSize compute v) := by
  unfold Capabilities.pageSize
  dsimp only
  repeat' split
  all_goals first | exact settled_pure | exact settled_throw rfl

theorem addNumaNode_settled {specs : Table String} {name : String} {node : Table Leaf}
    (h : ∀ key l, node.get? key = some l → s.Covers l) :
    Settled (Capabilities.addNumaNode compute s specs name node) := by
  refine (Substitution.resolveTable_settled h).bind fun node => ?_
  repeat' split
  all_goals first | exact settled_throw rfl | exact settled_pure.bind fun _ => settled_pure

theorem addNumaNodes_settled {nodes : List (String × Table Leaf)} {specs : Table String}
    (h : ∀ e ∈ nodes, ∀ key l, e.2.get? key = some l → s.Covers l) :
    Settled (Capabilities.addNumaNodes compute s nodes specs) := by
  induction nodes generalizing specs with
  | nil => exact settled_pure
  | cons e nodes ih =>
    obtain ⟨he, h⟩ := List.forall_mem_cons.1 h
    exact (addNumaNode_settled he).bind fun _ => ih h

theorem addCpuAllocation_settled {vs : List (String × Value)} {specs : Table String} :
    Settled (Capabilities.addCpuAllocation compute vs specs) := by
  induction vs generalizing specs with
  | nil => exact settled_pure
  | cons e vs ih =>
    rw [Capabilities.addCpuAllocation]
    split
    · exact ih
    · exact settled_throw rfl

theorem extraSpecs_settled {c : Capabilities} (h : ∀ l, c.Holds l → s.Covers l) :
    Settled (c.extraSpecs compute s) := by
  refine (Substitution.resolveOption_settled fun l hl => h l (.memPageSize hl)).bind fun page => ?_
  -- What follows the page size, from the last step on.
  extract_lets allocation nodes
  have hallocation : ∀ specs, Settled (allocation specs) := fun specs =>
    (Substitution.resolveTable_settled fun key l hl => h l (.cpuAllocation hl)).bind fun _ =>
      addCpuAllocation_settled
  have hnodes : ∀ specs, Settled (nodes specs) := by
    intro specs
    refine (Substitution.resolveOption_settled fun l hl => h l (.numaNodeCount hl)).bind
      fun count => ?_
    split
    · exact settled_pure.bind fun _ => hallocation _
    · split
      · exact settled_pure.bind fun _ => hallocation _
      · refine (addNumaNodes_settled fun e he key l hl => ?_).bind fun _ =>
          settled_pure.bind fun _ => hallocation _
        exact h l (.numaNode (Table.mem_entries.1 he) hl)
  split
  · exact pageSize_settled.bind fun _ => settled_pure.bind fun _ => hnodes _
  · exact settled_pure.bind fun _ => hnodes _

theorem flavor_settled {c : Capabilities} {configured : Table String}
    (h : ∀ l, c.Holds l → s.Covers l) : Settled (c.flavor compute s configured) := by
  refine (number_settled fun l hl => h l (.numCpus hl)).bind fun vcpus => ?_
  refine (number_settled fun l hl => h l (.diskSize hl)).bind fun disk => ?_
  refine (number_settled fun l hl => h l (.memSize hl)).bind fun ram => ?_
  refine (extraSpecs_settled h).bind fun specs => ?_
  dsimp only
  split
  · exact settled_pure
  · exact settled_pure

theorem image_settled {a : ImageArtifact} (h : ∀ l, a.file = some l → s.Covers l) :
    Settled (a.image compute s) := by
  refine (Substitution.resolveOption_settled h).bind fun o => ?_
  split
  · exact settled_throw rfl
  · exact settled_pure

theorem port_settled {r : PortRequest} : Settled r.port := by
  unfold PortRequest.port
  dsimp only
  repeat' split
  all_goals first | exact settled_throw rfl | exact settled_pure.bind fun _ => settled_pure

end Parts

namespace Compile

variable {s : Substitution} {d : Descriptor} {name : String} {c : Compute} {g : ResourceGraph}
  {server : Resource}

theorem add_settled {r : Resource} : Settled (add g name r) := settled_mapError fun _ => rfl

theorem setLeaf_settled {key : String} {leaf : Option Leaf} (h : ∀ l, leaf = some l → s.Covers l) :
    Settled (setLeaf s key leaf server) := by
  refine (Substitution.resolveOption_settled h).bind fun o => ?_
  split
  · exact settled_pure
  · exact settled_pure

section Compute

variable (h : ∀ l, c.Holds l → s.Covers l)
include h

theorem addImage_settled : Settled (addImage name c s g server) := by
  refine (Substitution.resolveOption_settled fun l hl => h l (.image hl)).bind fun o => ?_
  split
  · exact settled_pure
  · split
    · exact settled_pure
    · rename_i ha
      refine (image_settled fun l hl => h l (.artifact ha hl)).bind fun image => ?_
      exact add_settled.bind fun _ => settled_pure

theorem addFlavor_settled {settings : CompilerSettings} :
    Settled (addFlavor settings name c s g server) := by
  refine (Substitution.resolveOption_settled fun l hl => h l (.flavor hl)).bind fun o => ?_
  split
  · exact settled_pure
  · split
    · exact settled_pure
    · rename_i hc
      refine (flavor_settled fun l hl => h l (.capabilities hc hl)).bind fun flavor => ?_
      exact add_settled.bind fun _ => settled_pure

theorem setDetails_settled : Settled (setDetails c s server) := by
  refine (Substitution.resolveProperties_settled fun _ l hl => h l (.metadata hl)).bind
    fun metadata => ?_
  extract_lets titled rest
  have hrest : ∀ server, Settled (rest server) := fun _ =>
    (setLeaf_settled fun l hl => h l (.keyName hl)).bind fun _ =>
      setLeaf_settled fun l hl => h l (.availabilityZone hl)
  refine (Substitution.resolveOption_settled fun l hl => h l (.userData hl)).bind fun userData => ?_
  split
  · exact hrest _
  · exact hrest _

theorem requirementPort_settled {r : NetworkRequirement} (hr : r ∈ c.networks) :
    Settled (requirementPort name s r) := by
  refine (Substitution.resolveOption_settled fun l hl => h l (.addresses hr hl)).bind fun _ => ?_
  refine (Substitution.resolveProperties_settled fun _ l hl => h l (.networkProperty hr hl)).bind
    fun _ => settled_pure

end Compute

theorem connectionPort_settled
    (h : ∀ name c, d.components.get? name = some c → ∀ l, c.Holds l → s.Covers l)
    {p : String × ConnectionPoint} (hp : p ∈ d.select Component.connectionPoint?) :
    Settled (connectionPort d name s p) := by
  obtain ⟨cpName, cp⟩ := p
  have hcp := h cpName _ (Descriptor.mem_select_connectionPoint.1 hp)
  unfold connectionPort
  dsimp -zeta only
  extract_lets blank rest
  have hrest : ∀ network, Settled (rest network) := fun _ =>
    (Substitution.resolveOption_settled fun l hl => hcp l (.addresses hl)).bind fun _ =>
      (Substitution.resolveProperties_settled fun _ l hl => hcp l (.property hl)).bind fun _ =>
        settled_pure
  split
  · rename_i link hlink
    exact (Substitution.resolve_settled (h cp.link _ hlink _ (.networkName link))).bind
      fun _ => hrest _
  · exact settled_throw rfl

theorem portRequests_settled
    (h : ∀ name c, d.components.get? name = some c → ∀ l, c.Holds l → s.Covers l)
    (hc : d.components.get? name = some (.compute c)) {points : List (String × ConnectionPoint)}
    (hpoints : ∀ p ∈ points, p ∈ d.select Component.connectionPoint?) :
    Settled (portRequests d name c points s) := by
  have hinline : Settled (c.networks.mapM (requirementPort name s)) :=
    settled_mapM fun r hr => requirementPort_settled (fun l hl => h name _ hc l (.compute hl)) hr
  have hdeclared : Settled (points.mapM (connectionPort d name s)) :=
    settled_mapM fun p hp => connectionPort_settled h (hpoints p hp)
  refine hinline.bind fun inline => hdeclared.bind fun declared => ?_
  dsimp only
  split
  · exact (settled_throw rfl).bind fun _ => settled_pure
  · exact settled_pure.bind fun _ => settled_pure

theorem addMonitoring_settled {monitoring : Monitoring} (h : ∀ l, c.Holds l → s.Covers l) :
    Settled (addMonitoring s name c.monitoringPolicy monitoring) := by
  unfold addMonitoring
  split
  · exact settled_pure
  · rename_i p hp
    exact (Substitution.resolveTable_settled fun _ l hl => h l (.monitoring hp hl)).bind
      fun _ => settled_pure

theorem filePoints_settled {ps : List (String × ConnectionPoint)} {filed : PointsByCompute} :
    Settled (filePoints d ps filed) := by
  induction ps generalizing filed with
  | nil => exact settled_pure
  | cons p ps ih =>
    rw [filePoints]
    split
    · exact ih
    · exact settled_throw rfl

theorem pointsByCompute_settled : Settled (pointsByCompute d) :=
  filePoints_settled.bind fun _ => settled_pure

theorem addStorage_settled {storage : Storage}
    (h : ∀ l, (Component.storage storage).Holds l → s.Covers l) :
    Settled (addStorage d s name storage g) := by
  unfold addStorage
  extract_lets bare attachment build sized
  have hbuild : ∀ gb, Settled (build gb) := fun gb =>
    (setLeaf_settled fun l hl => h l (.image hl)).bind fun _ => add_settled.bind fun _ =>
      add_settled
  have hsized : ∀ u, Settled (sized u) := fun u => by
    refine (Substitution.resolve_settled (h _ (.size storage))).bind fun size => ?_
    split
    · exact settled_pure.bind fun _ => hbuild _
    · exact (settled_throw rfl).bind fun _ => hbuild _
  split
  · exact (settled_throw rfl).bind hsized
  · exact hsized ()

theorem addStorages_settled {storages : List (String × Storage)}
    (h : ∀ e ∈ storages, ∀ l, (Component.storage e.2).Holds l → s.Covers l) :
    Settled (addStorages d s storages g) := by
  induction storages generalizing g with
  | nil => exact settled_pure
  | cons e storages ih =>
    obtain ⟨he, h⟩ := List.forall_mem_cons.1 h
    exact (addStorage_settled he).bind fun _ => ih h

end Compile

theorem validate_settled {g : ResourceGraph} :
    Settled (g.validate.mapError Fault.invalidGraph) := settled_mapError fun _ => rfl

namespace Descriptor

variable {d : Descriptor} {g : ResourceGraph}

theorem scaling_settled : Settled d.scaling := by
  unfold scaling
  repeat' split
  all_goals first | exact settled_pure | exact settled_throw rfl

theorem withScaling_settled {s : ScalingSynthesis} : Settled (g.withScaling s) := by
  unfold ResourceGraph.withScaling
  split
  · exact settled_pure
  · split
    · exact settled_throw rfl
    · dsimp only
      split
      · exact settled_throw rfl
      · exact (settled_mapError fun _ => rfl).bind fun _ => validate_settled.bind fun _ =>
          settled_pure

theorem addAlarms_settled {scaling : Option ScalingPolicy} {suffix : String}
    {named : List (String × AlarmPolicy)} {done : AlarmSynthesis} :
    Settled (addAlarms scaling suffix named done) := by
  induction named generalizing done with
  | nil => exact settled_pure
  | cons e named ih =>
    rw [addAlarms]
    dsimp only
    split
    · exact settled_throw rfl
    · exact ih

theorem alarms_settled {workloadId : String} : Settled (d.alarms g workloadId) := by
  unfold alarms
  dsimp only
  split
  · exact settled_pure
  · exact addAlarms_settled.bind fun _ => (settled_mapError fun _ => rfl).bind fun _ =>
      validate_settled.bind fun _ => settled_pure

end Descriptor

theorem isWant_of_nest {name : String} {f : Fallback} {value : Property} {r r' : Resource}
    {fault : Fault} (h : r.nest name f value = (r', some fault)) : fault.isWant = false := by
  unfold Resource.nest at h
  dsimp only at h
  split at h
  · cases h
  · cases h
  · cases h
    rfl

theorem isWant_of_adaptsTo {m : Type → Type} [Monad m] [MonadAttach m] {catalog : Catalog m}
    {name : String} {fs : List Fallback} {r : Resource} {memo : SupportMemo} {adapted : Adapted}
    (h : r.AdaptsTo catalog name fs memo adapted) {fault : Fault}
    (hf : adapted.fault = some fault) : fault.isWant = false := by
  induction h with
  | done => cases hf
  | passedOver _ _ ih | supported _ _ _ _ ih | nested _ _ _ _ _ ih => exact ih hf
  | unanswered =>
    cases hf
    rfl
  | unnestable _ _ _ hnest =>
    cases hf
    exact isWant_of_nest hnest

section Monad

variable {m : Type → Type} [Monad m] [LawfulMonad m] [MonadAttach m] [LawfulMonadAttach m]
variable {α β : Type}

/-- Whatever the monad does, the computation does not fail for want of an input. -/
abbrev SettledIn (x : ExceptT Fault m α) : Prop := ThrowsOnly (fun fault => fault.isWant = false) x

theorem Settled.liftM {x : Except Fault α} (h : Settled x) :
    SettledIn (liftM x : ExceptT Fault m α) :=
  fun fault h' => h fault (error_of_canReturn_liftM h')

namespace Compile

variable {s : Substitution} {d : Descriptor} {catalog : Catalog m} {settings : CompilerSettings}

theorem addPorts_settledIn {rs : List PortRequest} {g : ResourceGraph} {memo : SupportMemo} :
    SettledIn (addPorts catalog rs g memo) := by
  induction rs generalizing g memo with
  | nil => exact throwsOnly_pure
  | cons r rs ih =>
    refine port_settled.liftM.bind fun port _ => ?_
    refine throwsOnly_lift.bind fun adapted hadapted => ?_
    extract_lets g' rest
    have hrest : ∀ u, SettledIn (rest u) := fun _ => add_settled.liftM.bind fun _ _ => ih
    split
    · rename_i fault hf
      have hthrow : SettledIn (throw fault : ExceptT Fault m PUnit) :=
        throwsOnly_throw
          (isWant_of_adaptsTo (Resource.adaptsTo_of_canReturn (canReturn_of_lift hadapted)) hf)
      exact hthrow.bind fun u _ => hrest u
    · exact hrest ()

section Covered

variable (h : ∀ name c, d.components.get? name = some c → ∀ l, c.Holds l → s.Covers l)
include h

theorem addCompute_settledIn {name : String} {c : Compute} {g : ResourceGraph} {memo : SupportMemo}
    {points : List (String × ConnectionPoint)} (hc : d.components.get? name = some (.compute c))
    (hpoints : ∀ p ∈ points, p ∈ d.select Component.connectionPoint?) :
    SettledIn (addCompute settings catalog d points s name c g memo) := by
  have hl : ∀ l, c.Holds l → s.Covers l := fun l hl => h name _ hc l (.compute hl)
  refine (addImage_settled hl).liftM.bind fun _ _ => ?_
  refine (addFlavor_settled hl).liftM.bind fun _ _ => ?_
  refine (setDetails_settled hl).liftM.bind fun _ _ => ?_
  refine (portRequests_settled h hc hpoints).liftM.bind fun _ _ => ?_
  refine addPorts_settledIn.bind fun _ _ => ?_
  exact add_settled.liftM.bind fun _ _ => throwsOnly_pure

theorem addComputes_settledIn {points : PointsByCompute} {cs : List (String × Compute)}
    {done : Compiled} {memo : SupportMemo}
    (hcs : ∀ e ∈ cs, d.components.get? e.1 = some (.compute e.2))
    (hpoints : ∀ compute, ∀ p ∈ (points.get? compute).getD [],
      p ∈ d.select Component.connectionPoint?) :
    SettledIn (addComputes settings catalog d points s cs done memo) := by
  induction cs generalizing done memo with
  | nil => exact throwsOnly_pure
  | cons e cs ih =>
    obtain ⟨he, hcs⟩ := List.forall_mem_cons.1 hcs
    refine (addCompute_settledIn h he (hpoints _)).bind fun _ _ => ?_
    refine (addMonitoring_settled fun l hl => h _ _ he l (.compute hl)).liftM.bind fun _ _ => ?_
    exact ih hcs

end Covered

end Compile

namespace Descriptor

variable {d : Descriptor} {settings : CompilerSettings} {parameters : Option Parameters}
variable {catalog : Catalog m} {workloadId : String}

theorem compile_settledIn (h : ∃ s, Substitution.prepare d parameters = .ok s) :
    SettledIn (d.compile settings parameters catalog) := by
  obtain ⟨s, hs⟩ := h
  have hcovers : ∀ name c, d.components.get? name = some c → ∀ l, c.Holds l → s.Covers l :=
    fun _ _ hc _ hl => Substitution.covers_of_prepare hs hc hl
  refine ThrowsOnly.bind (Settled.liftM fun fault hf => ?_) fun s' hs' => ?_
  · rw [hs] at hf
    cases hf
  · rw [ok_of_canReturn_liftM hs'] at hs
    cases hs
    refine Compile.pointsByCompute_settled.liftM.bind fun filed hfiled => ?_
    obtain ⟨-, hget⟩ := Compile.of_pointsByCompute (ok_of_canReturn_liftM hfiled)
    refine (Compile.addComputes_settledIn hcovers (fun e he => mem_computes.1 he) ?_).bind
      fun _ _ => ?_
    · intro compute p hp
      rw [hget, List.mem_mergeSort] at hp
      exact (List.mem_filter.1 hp).1
    refine (Compile.addStorages_settled fun e he l hl => ?_).liftM.bind fun _ _ => ?_
    · exact hcovers _ _ (mem_select_storage.1 he) l hl
    exact validate_settled.liftM.bind fun _ _ => throwsOnly_pure

theorem plan_settledIn (h : ∃ s, Substitution.prepare d parameters = .ok s) :
    SettledIn (d.plan settings parameters catalog workloadId) := by
  refine (compile_settledIn h).bind fun _ _ => ?_
  refine scaling_settled.liftM.bind fun _ _ => ?_
  refine withScaling_settled.liftM.bind fun _ _ => ?_
  exact alarms_settled.liftM.bind fun _ _ => throwsOnly_pure

end Descriptor

end Monad

namespace Descriptor

variable {m : Type → Type} [Monad m] [LawfulMonad m] {d : Descriptor}
variable {parameters : Option Parameters} {fault : Fault} {settings : CompilerSettings}
variable {catalog : Catalog m} {workloadId : String}

theorem compile_of_prepare (h : Substitution.prepare d parameters = .error fault) :
    (d.compile settings parameters catalog).run = pure (.error fault) := by
  unfold compile
  rw [h]
  exact pure_bind _ _

theorem plan_of_prepare (h : Substitution.prepare d parameters = .error fault) :
    (d.plan settings parameters catalog workloadId).run = pure (.error fault) := by
  unfold plan
  rw [ExceptT.run_bind, compile_of_prepare h]
  exact pure_bind _ _

end Descriptor

/-- A substitution can be prepared if no component mentions an input, or if there is a table and
every input that is mentioned has an entry or a default. If it cannot, compiling and planning do
nothing but say so of the first input, and if it can, neither ever says so. -/
theorem Substitution.prepare_settles (d : Descriptor) (parameters : Option Parameters) :
    ((∃ s, prepare d parameters = .ok s) ↔ (∀ name, ¬ d.Mentions name)
      ∨ ∃ table, parameters = some table ∧ ∀ name, d.Mentions name → d.Supplies table name)
    ∧ (∀ fault, prepare d parameters = .error fault → d.FirstWant parameters fault
      ∧ ∀ {m : Type → Type} [Monad m] [LawfulMonad m] (settings : CompilerSettings)
          (catalog : Catalog m) (workloadId : String),
          (d.compile settings parameters catalog).run = pure (.error fault)
            ∧ (d.plan settings parameters catalog workloadId).run = pure (.error fault))
    ∧ ((∃ s, prepare d parameters = .ok s) →
      ∀ {m : Type → Type} [Monad m] [LawfulMonad m] [MonadAttach m] [LawfulMonadAttach m]
        (settings : CompilerSettings) (catalog : Catalog m) (workloadId : String) (fault : Fault),
        CanReturn (d.compile settings parameters catalog).run (.error fault)
            ∨ CanReturn (d.plan settings parameters catalog workloadId).run (.error fault) →
          (∀ input, fault ≠ .missingParameter input) ∧ ∀ input, fault ≠ .unresolvedInput input) := by
  refine ⟨?_, fun fault h => ⟨firstWant_of_prepare h, ?_⟩, ?_⟩
  · rcases parameters with _ | table
    · simp [prepare_none_eq_ok_iff]
    · rw [prepare_some_eq_ok_iff]
      constructor
      · exact fun h => .inr ⟨table, rfl, h⟩
      · rintro (h | ⟨_, ⟨⟩, h⟩)
        · exact fun name hn => absurd hn (h name)
        · exact h
  · intro m _ _ settings catalog workloadId
    exact ⟨Descriptor.compile_of_prepare h, Descriptor.plan_of_prepare h⟩
  · intro h m _ _ _ _ settings catalog workloadId fault hr
    have hw : fault.isWant = false := by
      rcases hr with hr | hr
      · exact Descriptor.compile_settledIn h fault hr
      · exact Descriptor.plan_settledIn h fault hr
    constructor <;> rintro input rfl <;> cases hw

end Provision
