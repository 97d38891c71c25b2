import Provision.Proofs.Compiled
import Provision.Proofs.Inputs

/-!
# Compilation is compositional

A descriptor is compiled once as it is and once with a component more. Whatever the two runs have in
common they do alike: a server depends on the component, on its connection points and on their
network links, and what an endpoint is remembered to support is what it would answer. So the run
with the component more keeps everything that the other one comes to (`compile_withComponent`).
-/

namespace Provision

open MonadAttach LawfulMonadAttach

section Answers

variable {m : Type → Type} [Monad m] [LawfulMonad m] [MonadAttach m] [LawfulMonadAttach m]
variable {catalog : Catalog m} {answer : String → Except ServiceError NameSet}
variable {memo : SupportMemo}

/-- Whenever the catalog is asked for a resource type, it gives the one answer. -/
def Catalog.Answers (catalog : Catalog m) (answer : String → Except ServiceError NameSet) : Prop :=
  ∀ type result, CanReturn (catalog.supported type) result → result = answer type

/-- What is remembered is what the catalog answers. -/
def SupportMemo.Recalls (memo : SupportMemo) (answer : String → Except ServiceError NameSet) :
    Prop :=
  ∀ type properties, memo.get? type = some properties → answer type = .ok properties

theorem SupportMemo.recalls_empty : Recalls Table.empty answer := by
  intro type properties h
  cases h

theorem SupportMemo.of_supported (hcat : catalog.Answers answer) (hm : memo.Recalls answer)
    {type : String} {result : Except ServiceError (NameSet × SupportMemo)}
    (h : CanReturn (memo.supported catalog type) result) :
    answer type = result.map Prod.fst
      ∧ ∀ properties memo', result = .ok (properties, memo') → memo'.Recalls answer := by
  unfold supported at h
  split at h
  · rename_i properties hget
    cases eq_of_canReturn_pure h
    refine ⟨hm type properties hget, ?_⟩
    rintro _ _ ⟨⟩
    exact hm
  · obtain ⟨asked, hasked, h⟩ := canReturn_bind_imp' h
    have ha := hcat type asked hasked
    rcases asked with e | properties
    · cases eq_of_canReturn_pure h
      exact ⟨ha.symm, fun _ _ h => nomatch h⟩
    · cases eq_of_canReturn_pure h
      refine ⟨ha.symm, ?_⟩
      rintro _ _ ⟨⟩ t ps hps
      rw [Table.get?_put] at hps
      split at hps
      · rename_i ht
        cases hps
        rw [ht, ← ha]
      · exact hm t ps hps

/-- What is left of a resource, and the fault, if there is one. -/
def Adapted.outcome (a : Adapted) : Resource × Option Fault := (a.resource, a.fault)

/-- What adapting a resource comes to if every answer is known beforehand. -/
def Resource.adapted (answer : String → Except ServiceError NameSet) (name : String) :
    List Fallback → Resource → Resource × Option Fault
  | [], r => (r, none)
  | f :: fs, r =>
    match r.concern? f with
    | none => adapted answer name fs r
    | some value =>
      match answer f.type with
      | .error e => (r, some (.service e))
      | .ok properties =>
        if properties.contains f.property then adapted answer name fs r
        else
          match r.nest name f value with
          | (r, none) => adapted answer name fs r
          | (r, some fault) => (r, some fault)

/-- Whatever is remembered, adapting comes to the same. -/
theorem Resource.AdaptsTo.outcome (hcat : catalog.Answers answer) {name : String}
    {fs : List Fallback} {r : Resource} {a : Adapted} (h : r.AdaptsTo catalog name fs memo a)
    (hm : memo.Recalls answer) :
    a.outcome = r.adapted answer name fs ∧ a.memo.Recalls answer := by
  induction h with
  | done => exact ⟨rfl, hm⟩
  | passedOver hnone _ ih =>
    obtain ⟨heq, hm⟩ := ih hm
    exact ⟨heq.trans (by simp only [adapted, hnone]), hm⟩
  | unanswered hvalue hasked =>
    have hans := (SupportMemo.of_supported hcat hm hasked).1
    exact ⟨by simp only [adapted, hvalue, hans]; rfl, hm⟩
  | supported hvalue hasked hhas _ ih =>
    obtain ⟨hans, hm'⟩ := SupportMemo.of_supported hcat hm hasked
    obtain ⟨heq, hm⟩ := ih (hm' _ _ rfl)
    exact ⟨heq.trans (by simp [adapted, hvalue, hans, Except.map, hhas]), hm⟩
  | nested hvalue hasked hlacks hnest _ ih =>
    obtain ⟨hans, hm'⟩ := SupportMemo.of_supported hcat hm hasked
    obtain ⟨heq, hm⟩ := ih (hm' _ _ rfl)
    exact ⟨heq.trans (by simp [adapted, hvalue, hans, Except.map, hlacks, hnest]), hm⟩
  | unnestable hvalue hasked hlacks hnest =>
    obtain ⟨hans, hm'⟩ := SupportMemo.of_supported hcat hm hasked
    exact ⟨by simp [Adapted.outcome, adapted, hvalue, hans, Except.map, hlacks, hnest],
      hm' _ _ rfl⟩

end Answers

namespace Compile

/-- Every resource of a graph is in another one as well, and is the same there. -/
def Keeps (g g' : ResourceGraph) : Prop :=
  ∀ name r, g.resource? name = some r → g'.resource? name = some r

section Steps

variable {d d' : Descriptor} {s : Substitution} {name : String} {c : Compute}
variable {g₁ g₁' g₂ g₂' : ResourceGraph} {server server₁ server₂ : Resource}

theorem Keeps.add {r : Resource} (hk : Keeps g₁ g₂) (h₁ : add g₁ name r = .ok g₁')
    (h₂ : Compile.add g₂ name r = .ok g₂') : Keeps g₁' g₂' := by
  intro x r' hr
  rw [resource?_of_add h₁] at hr
  rw [resource?_of_add h₂]
  split at hr
  · rename_i hx
    rw [if_pos hx, hr]
  · rename_i hx
    rw [if_neg hx]
    exact hk x r' hr

theorem give_agree {key own : String} {named : Except Fault (Option Value)}
    {made : Option (Except Fault Resource)} (hk : Keeps g₁ g₂)
    (h₁ : give key own named made g₁ server = .ok (g₁', server₁))
    (h₂ : give key own named made g₂ server = .ok (g₂', server₂)) :
    server₂ = server₁ ∧ Keeps g₁' g₂' := by
  -- What is named, or made, is the same on both sides.
  rcases of_give_eq_ok h₁ with ⟨v, hv, rfl, rfl⟩ | ⟨hv, rfl, rfl, rfl⟩ | ⟨r, hv, rfl, hadd, rfl⟩
  · rw [hv] at h₂
    cases h₂
    exact ⟨rfl, hk⟩
  · rw [hv] at h₂
    cases h₂
    exact ⟨rfl, hk⟩
  · rw [hv] at h₂
    change (add g₂ own r >>= fun g => pure (g, server.set key (.resource own))) = _ at h₂
    obtain ⟨g, hadd₂, h₂⟩ := bind_eq_ok_iff.1 h₂
    cases h₂
    exact ⟨rfl, hk.add hadd hadd₂⟩

theorem mapM_mono {α β : Type} {f f' : α → Except Fault β}
    (hf : ∀ x y, f x = .ok y → f' x = .ok y) :
    ∀ {xs : List α} {ys : List β}, xs.mapM f = .ok ys → xs.mapM f' = .ok ys
  | [], _, h => h
  | x :: xs, _, h => by
    rw [List.mapM_cons, bind_eq_ok_iff] at h
    obtain ⟨y, hy, h⟩ := h
    obtain ⟨ys, hys, h⟩ := bind_eq_ok_iff.1 h
    cases h
    rw [List.mapM_cons, hf x y hy]
    show (xs.mapM f' >>= _) = _
    rw [mapM_mono hf hys]
    rfl

/-- A descriptor with more components asks for the same ports. -/
theorem portRequests_mono {points : List (String × ConnectionPoint)} {requests : List PortRequest}
    (hd : ∀ name component, d.components.get? name = some component →
      d'.components.get? name = some component)
    (h : portRequests d name c points s = .ok requests) :
    portRequests d' name c points s = .ok requests := by
  have hpoint : ∀ p request, connectionPort d name s p = .ok request →
      connectionPort d' name s p = .ok request := by
    rintro ⟨cpName, cp⟩ request h
    unfold connectionPort at h ⊢
    dsimp only at h ⊢
    rcases hl : d.components.get? cp.link with _ | component
    · rw [hl] at h
      cases h
    · rw [hl] at h
      rw [hd cp.link component hl]
      exact h
  unfold portRequests at h ⊢
  obtain ⟨inline, hinline, h⟩ := bind_eq_ok_iff.1 h
  obtain ⟨declared, hdeclared, h⟩ := bind_eq_ok_iff.1 h
  rw [hinline]
  show (points.mapM (connectionPort d' name s) >>= _) = _
  rw [mapM_mono hpoint hdeclared]
  exact h

end Steps

section Monad

variable {m : Type → Type} [Monad m] [LawfulMonad m] [MonadAttach m] [LawfulMonadAttach m]
variable {catalog : Catalog m} {answer : String → Except ServiceError NameSet}
variable {d d' : Descriptor} {s : Substitution} {settings : CompilerSettings}

theorem addPorts_agree (hcat : catalog.Answers answer) {requests : List PortRequest}
    {g₁ g₂ g₁' g₂' : ResourceGraph} {memo₁ memo₂ memo₁' memo₂' : SupportMemo}
    (hk : Keeps g₁ g₂) (hm₁ : memo₁.Recalls answer) (hm₂ : memo₂.Recalls answer)
    (h₁ : CanReturn (addPorts catalog requests g₁ memo₁) (g₁', memo₁'))
    (h₂ : CanReturn (addPorts catalog requests g₂ memo₂) (g₂', memo₂')) :
    Keeps g₁' g₂' ∧ memo₁'.Recalls answer ∧ memo₂'.Recalls answer := by
  induction requests generalizing g₁ g₂ memo₁ memo₂ with
  | nil =>
    cases eq_of_canReturn_pure h₁
    cases eq_of_canReturn_pure h₂
    exact ⟨hk, hm₁, hm₂⟩
  | cons r rs ih =>
    obtain ⟨port, hport, h₁⟩ := canReturn_bind_imp' h₁
    obtain ⟨port', hport', h₂⟩ := canReturn_bind_imp' h₂
    cases (ok_of_canReturn_liftM hport).symm.trans (ok_of_canReturn_liftM hport')
    obtain ⟨a, ha, h₁⟩ := canReturn_bind_imp' h₁
    obtain ⟨b, hb, h₂⟩ := canReturn_bind_imp' h₂
    obtain ⟨houtcomeA, hma⟩ :=
      (Resource.adaptsTo_of_canReturn (canReturn_of_lift ha)).outcome hcat hm₁
    obtain ⟨houtcomeB, hmb⟩ :=
      (Resource.adaptsTo_of_canReturn (canReturn_of_lift hb)).outcome hcat hm₂
    have hresource : b.resource = a.resource :=
      congrArg Prod.fst (houtcomeB.trans houtcomeA.symm)
    extract_lets o₁ rest₁ at h₁
    extract_lets o₂ rest₂ at h₂
    have ho : Keeps o₁ o₂ := by
      unfold o₁ o₂
      rcases port.managementOutput with _ | ⟨name, o⟩
      · exact hk
      · exact hk
    have hrest₁ : CanReturn (rest₁ ()) (g₁', memo₁') := by
      split at h₁
      · obtain ⟨u, hu, -⟩ := canReturn_bind_imp' h₁
        exact (not_canReturn_throw hu).elim
      · exact h₁
    have hrest₂ : CanReturn (rest₂ ()) (g₂', memo₂') := by
      split at h₂
      · obtain ⟨u, hu, -⟩ := canReturn_bind_imp' h₂
        exact (not_canReturn_throw hu).elim
      · exact h₂
    obtain ⟨p₁, hp₁, hrest₁⟩ := canReturn_bind_imp' hrest₁
    obtain ⟨p₂, hp₂, hrest₂⟩ := canReturn_bind_imp' hrest₂
    rw [hresource] at hp₂
    exact ih (ho.add (ok_of_canReturn_liftM hp₁) (ok_of_canReturn_liftM hp₂)) hma hmb hrest₁ hrest₂

/-- Two runs add a compute component alike. -/
theorem addCompute_agree (hcat : catalog.Answers answer) {name : String} {c : Compute}
    {points : List (String × ConnectionPoint)}
    {g₁ g₂ g₁' g₂' : ResourceGraph} {memo₁ memo₂ memo₁' memo₂' : SupportMemo}
    (hd : ∀ name component, d.components.get? name = some component →
      d'.components.get? name = some component)
    (hk : Keeps g₁ g₂) (hm₁ : memo₁.Recalls answer) (hm₂ : memo₂.Recalls answer)
    (h₁ : CanReturn (addCompute settings catalog d points s name c g₁ memo₁) (g₁', memo₁'))
    (h₂ : CanReturn (addCompute settings catalog d' points s name c g₂ memo₂) (g₂', memo₂')) :
    Keeps g₁' g₂' ∧ memo₁'.Recalls answer ∧ memo₂'.Recalls answer := by
  obtain ⟨⟨i₁, imaged₁⟩, himage₁, h₁⟩ := canReturn_bind_imp' h₁
  obtain ⟨⟨i₂, imaged₂⟩, himage₂, h₂⟩ := canReturn_bind_imp' h₂
  have himage₁ := ok_of_canReturn_liftM himage₁
  have himage₂ := ok_of_canReturn_liftM himage₂
  rw [addImage_eq] at himage₁ himage₂
  obtain ⟨rfl, hki⟩ := give_agree hk himage₁ himage₂
  obtain ⟨⟨f₁, flavored₁⟩, hflavor₁, h₁⟩ := canReturn_bind_imp' h₁
  obtain ⟨⟨f₂, flavored₂⟩, hflavor₂, h₂⟩ := canReturn_bind_imp' h₂
  have hflavor₁ := ok_of_canReturn_liftM hflavor₁
  have hflavor₂ := ok_of_canReturn_liftM hflavor₂
  rw [addFlavor_eq] at hflavor₁ hflavor₂
  obtain ⟨rfl, hkf⟩ := give_agree hki hflavor₁ hflavor₂
  obtain ⟨server₁, hserver₁, h₁⟩ := canReturn_bind_imp' h₁
  obtain ⟨server₂, hserver₂, h₂⟩ := canReturn_bind_imp' h₂
  cases (ok_of_canReturn_liftM hserver₁).symm.trans (ok_of_canReturn_liftM hserver₂)
  obtain ⟨requests₁, hrequests₁, h₁⟩ := canReturn_bind_imp' h₁
  obtain ⟨requests₂, hrequests₂, h₂⟩ := canReturn_bind_imp' h₂
  -- The ports are the only thing that the other components have a say in.
  cases (portRequests_mono hd (ok_of_canReturn_liftM hrequests₁)).symm.trans
    (ok_of_canReturn_liftM hrequests₂)
  obtain ⟨⟨p₁, memo₃⟩, hports₁, h₁⟩ := canReturn_bind_imp' h₁
  obtain ⟨⟨p₂, memo₄⟩, hports₂, h₂⟩ := canReturn_bind_imp' h₂
  obtain ⟨hkp, hm₃, hm₄⟩ := addPorts_agree hcat hkf hm₁ hm₂ hports₁ hports₂
  obtain ⟨a₁, hadd₁, h₁⟩ := canReturn_bind_imp' h₁
  obtain ⟨a₂, hadd₂, h₂⟩ := canReturn_bind_imp' h₂
  cases eq_of_canReturn_pure (m := m) h₁
  cases eq_of_canReturn_pure (m := m) h₂
  exact ⟨hkp.add (ok_of_canReturn_liftM hadd₁) (ok_of_canReturn_liftM hadd₂), hm₃, hm₄⟩

/-- What two runs have come to, of which the second one compiles a component named `n` more: it has
every resource of the first one, and monitors the other components as the first one does. -/
structure Agrees (n : String) (done₁ done₂ : Compiled) : Prop where
  graph : Keeps done₁.graph done₂.graph
  monitoring : ∀ x, x ≠ n → done₂.monitoring.get? x = done₁.monitoring.get? x
  unmonitored : done₁.monitoring.get? n = none

theorem get?_of_addMonitoring {name : String} {policy : Option MonitoringPolicy}
    {monitoring monitoring' : Monitoring}
    (h : addMonitoring s name policy monitoring = .ok monitoring') {x : String} (hx : x ≠ name) :
    monitoring'.get? x = monitoring.get? x := by
  rcases policy with _ | p
  · cases h
    rfl
  · obtain ⟨parameters, -, h⟩ := bind_eq_ok_iff.1 h
    cases h
    exact Table.get?_put.trans (if_neg hx)

theorem addMonitoring_agree {name : String} {policy : Option MonitoringPolicy}
    {monitoring₁ monitoring₂ monitoring₁' monitoring₂' : Monitoring}
    (hname : monitoring₂.get? name = monitoring₁.get? name)
    (h₁ : addMonitoring s name policy monitoring₁ = .ok monitoring₁')
    (h₂ : addMonitoring s name policy monitoring₂ = .ok monitoring₂') :
    monitoring₂'.get? name = monitoring₁'.get? name := by
  rcases policy with _ | p
  · cases h₁
    cases h₂
    exact hname
  · obtain ⟨parameters, hp, h₁⟩ := bind_eq_ok_iff.1 h₁
    obtain ⟨parameters', hp', h₂⟩ := bind_eq_ok_iff.1 h₂
    cases hp.symm.trans hp'
    cases h₁
    cases h₂
    rw [Table.get?_put, Table.get?_put, hname]

/-- The run that goes through the components but for `n` and the run that goes through all of them
come to results that agree. -/
theorem addComputes_agree (hcat : catalog.Answers answer) {n : String}
    {points₁ points₂ : PointsByCompute} {cs : List (String × Compute)}
    {done₁ done₂ done₁' done₂' : Compiled} {memo₁ memo₂ : SupportMemo}
    (hd : ∀ name component, d.components.get? name = some component →
      d'.components.get? name = some component)
    (hpoints : ∀ x, x ≠ n → (points₂.get? x).getD [] = (points₁.get? x).getD [])
    (hperm : ((points₂.get? n).getD []).Perm (d'.points n))
    (hdone : Agrees n done₁ done₂) (hm₁ : memo₁.Recalls answer) (hm₂ : memo₂.Recalls answer)
    (h₁ : CanReturn (addComputes settings catalog d points₁ s (cs.filter fun e => e.1 ≠ n) done₁
      memo₁) done₁')
    (h₂ : CanReturn (addComputes settings catalog d' points₂ s cs done₂ memo₂) done₂') :
    Agrees n done₁' done₂' := by
  induction cs generalizing done₁ done₂ memo₁ memo₂ with
  | nil =>
    cases eq_of_canReturn_pure (m := m) h₁
    cases eq_of_canReturn_pure (m := m) h₂
    exact hdone
  | cons e cs ih =>
    obtain ⟨name, c⟩ := e
    obtain ⟨⟨g₂, memo₂'⟩, hcompute₂, h₂⟩ := canReturn_bind_imp' h₂
    obtain ⟨monitoring₂, hmonitoring₂, h₂⟩ := canReturn_bind_imp' h₂
    have hmonitoring₂ := ok_of_canReturn_liftM hmonitoring₂
    by_cases hn : name = n
    · -- Only the second run has this component.
      subst hn
      rw [List.filter_cons_of_neg (by simp)] at h₁
      have hkept := (of_addCompute hperm hcompute₂).adds.kept
      have hm₂' := (addCompute_agree hcat (fun _ _ h => h) (fun _ _ h => h) hm₂ hm₂ hcompute₂
        hcompute₂).2.2
      refine ih ⟨fun x r hr => hkept x r (hdone.graph x r hr), fun x hx => ?_, hdone.unmonitored⟩
        hm₁ hm₂' h₁ h₂
      rw [get?_of_addMonitoring hmonitoring₂ hx]
      exact hdone.monitoring x hx
    · rw [List.filter_cons_of_pos (by simpa using hn)] at h₁
      obtain ⟨⟨g₁, memo₁'⟩, hcompute₁, h₁⟩ := canReturn_bind_imp' h₁
      obtain ⟨monitoring₁, hmonitoring₁, h₁⟩ := canReturn_bind_imp' h₁
      have hmonitoring₁ := ok_of_canReturn_liftM hmonitoring₁
      rw [hpoints name hn] at hcompute₂
      obtain ⟨hk, hm₁', hm₂'⟩ :=
        addCompute_agree hcat hd hdone.graph hm₁ hm₂ hcompute₁ hcompute₂
      refine ih ⟨hk, fun x hx => ?_, ?_⟩ hm₁' hm₂' h₁ h₂
      · by_cases hxname : x = name
        · subst hxname
          exact addMonitoring_agree (hdone.monitoring x hx) hmonitoring₁ hmonitoring₂
        · rw [get?_of_addMonitoring hmonitoring₁ hxname, get?_of_addMonitoring hmonitoring₂ hxname]
          exact hdone.monitoring x hx
      · rw [get?_of_addMonitoring hmonitoring₁ (Ne.symm hn)]
        exact hdone.unmonitored

end Monad

theorem addStorage_agree {d d' : Descriptor} {s : Substitution} {name : String} {storage : Storage}
    {g₁ g₂ g₁' g₂' : ResourceGraph} (hk : Keeps g₁ g₂)
    (h₁ : addStorage d s name storage g₁ = .ok g₁')
    (h₂ : addStorage d' s name storage g₂ = .ok g₂') : Keeps g₁' g₂' := by
  unfold addStorage at h₁ h₂
  extract_lets bare attach build sized at h₁
  extract_lets build' sized' at h₂
  have hbuild : ∀ gb, build gb = .ok g₁' → build' gb = .ok g₂' → Keeps g₁' g₂' := by
    intro gb h₁ h₂
    obtain ⟨volume, hvolume, h₁⟩ := bind_eq_ok_iff.1 h₁
    obtain ⟨volume', hvolume', h₂⟩ := bind_eq_ok_iff.1 h₂
    cases hvolume.symm.trans hvolume'
    obtain ⟨v₁, hv₁, h₁⟩ := bind_eq_ok_iff.1 h₁
    obtain ⟨v₂, hv₂, h₂⟩ := bind_eq_ok_iff.1 h₂
    exact (hk.add hv₁ hv₂).add h₁ h₂
  split at h₁
  · cases h₁
  split at h₂
  · cases h₂
  obtain ⟨size, hsize, h₁⟩ := bind_eq_ok_iff.1 h₁
  obtain ⟨size', hsize', h₂⟩ := bind_eq_ok_iff.1 h₂
  cases hsize.symm.trans hsize'
  rcases hgb : Size.ofValue? .giga size with _ | gb
  · rw [hgb] at h₁
    cases h₁
  · rw [hgb] at h₁ h₂
    exact hbuild gb h₁ h₂

theorem addStorages_agree {d d' : Descriptor} {s : Substitution} {n : String}
    {storages : List (String × Storage)} {g₁ g₂ g₁' g₂' : ResourceGraph} (hk : Keeps g₁ g₂)
    (h₁ : addStorages d s (storages.filter fun e => e.1 ≠ n) g₁ = .ok g₁')
    (h₂ : addStorages d' s storages g₂ = .ok g₂') : Keeps g₁' g₂' := by
  induction storages generalizing g₁ g₂ with
  | nil =>
    cases h₁
    cases h₂
    exact hk
  | cons e storages ih =>
    obtain ⟨name, storage⟩ := e
    obtain ⟨a₂, ha₂, h₂⟩ := bind_eq_ok_iff.1 h₂
    by_cases hn : name = n
    · subst hn
      rw [List.filter_cons_of_neg (by simp)] at h₁
      have hkept := (of_addStorage ha₂).1.kept
      exact ih (fun x r hr => hkept x r (hk x r hr)) h₁ h₂
    · rw [List.filter_cons_of_pos (by simpa using hn)] at h₁
      obtain ⟨a₁, ha₁, h₁⟩ := bind_eq_ok_iff.1 h₁
      exact ih (addStorage_agree hk ha₁ ha₂) h₁ h₂

end Compile

namespace Descriptor

variable {d : Descriptor} {n : String} {e : Component}

theorem select_withComponent_perm {α : Type} (kind : Component → Option α)
    (hn : d.components.get? n = none) :
    ((d.withComponent n e).select kind).Perm
      (((kind e).map fun a => (n, a)).toList ++ d.select kind) := by
  have hput : (d.components.put n e).entries.Perm ((n, e) :: d.components.entries) :=
    Entries.put_perm (Entries.get?_eq_none.1 hn)
  have hselect := hput.filterMap fun f => (kind f.2).map fun a => (f.1, a)
  rw [List.filterMap_cons] at hselect
  rcases hk : kind e with _ | a
  · rw [hk] at hselect
    exact hselect
  · rw [hk] at hselect
    exact hselect

/-- Left out of the components of a kind, the new one leaves those that were there. -/
theorem select_withComponent_filter {α : Type} (kind : Component → Option α)
    (hn : d.components.get? n = none) :
    ((d.withComponent n e).select kind).filter (fun f => f.1 ≠ n) = d.select kind := by
  have hrest : (d.components.put n e).filter (fun k _ => k ≠ n) = d.components := by
    refine Table.ext_get? fun x => ?_
    rw [Table.get?_filter, Table.get?_put]
    by_cases hx : x = n
    · subst hx
      simp [hn]
    · rcases d.components.get? x with _ | c
      · simp [hx]
      · simp [hx]
  have hentries := congrArg Table.entries hrest
  unfold select
  rw [← hentries, withComponent, Table.filter, List.filterMap_filter, List.filter_filterMap]
  refine List.filterMap_congr fun (k, c) _ => ?_
  dsimp only
  rcases kind c with _ | a
  · simp
  · by_cases hk : k = n
    · simp [hk]
    · simp [hk]

theorem select_withComponent_of_none {α : Type} {kind : Component → Option α}
    (hn : d.components.get? n = none) (hk : kind e = none) :
    (d.withComponent n e).select kind = d.select kind := by
  rw [← select_withComponent_filter kind hn]
  refine (List.filter_eq_self.2 fun (k, a) hmem => ?_).symm
  obtain ⟨c, hc, ha⟩ := mem_select.1 hmem
  refine decide_eq_true ?_
  rintro rfl
  cases (Table.get?_put.trans (if_pos rfl)).symm.trans hc
  cases hk.symm.trans ha

end Descriptor

/-- What a component is compiled into that has no connection points: all of it is named after the
component. -/
def Component.ownResources (name : String) : Component → List (String × String)
  | .compute c =>
    (name, serverType) :: (c.ownFlavor name ++ (c.ownImage name
      ++ c.networks.map fun r => (portName name r.network, portType)))
  | .storage _ => [(name, volumeType), (attachmentName name, attachmentType)]
  | .networkLink _ => []
  | .connectionPoint _ => []

namespace Descriptor

variable {d : Descriptor} {n : String} {e : Component}

/-- What compilation with a component more comes to, compared with what it comes to without: nothing
is changed, and the resources that are new are those of the component. -/
structure Composes (n : String) (e : Component) (before after : Compiled) : Prop where
  resources : ∀ name r, before.graph.resource? name = some r → after.graph.resource? name = some r
  outputs : ∀ name o, before.graph.outputs.get? name = some o →
    after.graph.outputs.get? name = some o
  monitoring : ∀ name policies, before.monitoring.get? name = some policies →
    after.monitoring.get? name = some policies
  added : after.graph.typed.Perm (e.ownResources n ++ before.graph.typed)

section Points

variable {g : ResourceGraph}

theorem get?_withComponent_of_get? (hn : d.components.get? n = none) {name : String}
    {component : Component} (h : d.components.get? name = some component) :
    (d.withComponent n e).components.get? name = some component := by
  refine (Table.get?_put.trans (if_neg ?_)).trans h
  rintro rfl
  cases hn.symm.trans h

theorem connectionPoint?_eq_none
    (he : ∀ p, e = .connectionPoint p → d.hasCompute p.binding = false)
    (h : (d.withComponent n e).CompilesTo g) : e.connectionPoint? = none := by
  rcases e with _ | _ | _ | p
  · rfl
  · rfl
  · rfl
  · have hget : (d.withComponent n (.connectionPoint p)).components.get? n
        = some (.connectionPoint p) := Table.get?_put.trans (if_pos rfl)
    obtain ⟨c, hc⟩ := hasCompute_iff.1 (h.bound (n, p) (mem_select_connectionPoint.2 hget))
    by_cases hb : p.binding = n
    · rw [hb] at hc
      cases hget.symm.trans hc
    · have hold : d.components.get? p.binding = some (.compute c) :=
        (Table.get?_put.trans (if_neg hb)).symm.trans hc
      have hno := he p rfl
      rw [hasCompute_iff.2 ⟨c, hold⟩] at hno
      cases hno

theorem points_withComponent (hn : d.components.get? n = none)
    (he : e.connectionPoint? = none) (compute : String) :
    (d.withComponent n e).points compute = d.points compute := by
  rw [points, points, select_withComponent_of_none hn he]

/-- No connection point is bound to what is no component. -/
theorem points_eq_nil (hn : d.components.get? n = none) (h : d.CompilesTo g) : d.points n = [] := by
  refine List.filter_eq_nil_iff.2 fun p hp hb => ?_
  obtain ⟨c, hc⟩ := hasCompute_iff.1 (h.bound p hp)
  rw [of_decide_eq_true hb] at hc
  cases hn.symm.trans hc

end Points

section Resources

variable {g₁ g₂ : ResourceGraph}

theorem added_of_compilesTo (hn : d.components.get? n = none)
    (he : e.connectionPoint? = none) (h₁ : d.CompilesTo g₁)
    (h₂ : (d.withComponent n e).CompilesTo g₂) :
    g₂.typed.Perm (e.ownResources n ++ g₁.typed) := by
  have hpoints := points_withComponent hn he
  have hown : ∀ f : String × Compute, (d.withComponent n e).ownResources f.1 f.2
      = d.ownResources f.1 f.2 := by
    intro f
    rw [ownResources, ownResources, portNames, portNames, ownPorts, ownPorts, hpoints]
  have hcomputes := (select_withComponent_perm Component.compute? hn (e := e)).flatMap_right
    fun f => d.ownResources f.1 f.2
  have hstorages := (select_withComponent_perm Component.storage? hn (e := e)).flatMap_right
    fun f => [(f.1, volumeType), (attachmentName f.1, attachmentType)]
  have hall := h₂.resources
  rw [List.flatMap_congr fun f _ => hown f] at hall
  refine hall.trans
    ((hcomputes.append hstorages).trans (.trans ?_ (h₁.resources.symm.append_left _)))
  -- What is left is to move the resources of the new component to the front.
  rw [List.flatMap_append, List.flatMap_append, List.append_assoc]
  rcases e with c | storage | link | p
  · have hnone : d.ownResources n c = (Component.compute c).ownResources n := by
      rw [ownResources, portNames, ownPorts, points_eq_nil hn h₁]
      simp [Component.ownResources, Function.comp_def]
    refine (List.Perm.of_eq ?_).append_right _
    exact (List.flatMap_singleton ..).trans hnone
  · exact List.perm_append_comm_assoc (d.computes.flatMap fun f => d.ownResources f.1 f.2)
      [(n, volumeType), (attachmentName n, attachmentType)] _
  · exact .refl _
  · cases he

theorem outputs_of_compilesTo (hn : d.components.get? n = none)
    (he : e.connectionPoint? = none) (h₁ : d.CompilesTo g₁)
    (h₂ : (d.withComponent n e).CompilesTo g₂) {name : String} {o : Output}
    (ho : g₁.outputs.get? name = some o) : g₂.outputs.get? name = some o := by
  have hmem := h₁.outputs.mem_iff.1 (Table.mem_entries.2 ho)
  obtain ⟨⟨k, c⟩, hc, ho⟩ := List.mem_flatMap.1 hmem
  refine Table.mem_entries.1 (h₂.outputs.mem_iff.2 (List.mem_flatMap.2 ⟨(k, c), ?_, ?_⟩))
  · exact mem_computes.2 (get?_withComponent_of_get? hn (mem_computes.1 hc))
  · rw [ownOutputs, managementPorts, ownPorts, points_withComponent hn he]
    exact ho

end Resources

/-- A component more changes nothing of what the others are compiled into, and adds the resources
that are named after it. -/
theorem compile_withComponent {m : Type → Type} [Monad m] [LawfulMonad m] [MonadAttach m]
    [LawfulMonadAttach m] {settings : CompilerSettings} {parameters : Option Parameters}
    {catalog : Catalog m} (hcat : ∃ answer, catalog.Answers answer)
    (hn : d.components.get? n = none)
    (he : ∀ p, e = .connectionPoint p → d.hasCompute p.binding = false)
    {before after : Compiled}
    (hbefore : CanReturn (d.compile settings parameters catalog) before)
    (hafter : CanReturn ((d.withComponent n e).compile settings parameters catalog) after) :
    Composes n e before after := by
  obtain ⟨answer, hcat⟩ := hcat
  have h₁ := of_compile hbefore
  have h₂ := of_compile hafter
  have hcp := connectionPoint?_eq_none he h₂
  obtain ⟨s₁, hs₁, hbefore⟩ := canReturn_bind_imp' hbefore
  obtain ⟨s₂, hs₂, hafter⟩ := canReturn_bind_imp' hafter
  obtain rfl := Substitution.eq_of_prepare (ok_of_canReturn_liftM hs₁)
  obtain rfl := Substitution.eq_of_prepare (ok_of_canReturn_liftM hs₂)
  obtain ⟨points₁, hpoints₁, hbefore⟩ := canReturn_bind_imp' hbefore
  obtain ⟨points₂, hpoints₂, hafter⟩ := canReturn_bind_imp' hafter
  have hpoints₁ := (Compile.of_pointsByCompute (ok_of_canReturn_liftM hpoints₁)).2
  have hpoints₂ := (Compile.of_pointsByCompute (ok_of_canReturn_liftM hpoints₂)).2
  obtain ⟨done₁, hdone₁, hbefore⟩ := canReturn_bind_imp' hbefore
  obtain ⟨done₂, hdone₂, hafter⟩ := canReturn_bind_imp' hafter
  -- The first run goes through what the second goes through, without `n`.
  rw [computes, ← select_withComponent_filter (e := e) Component.compute? hn] at hdone₁
  have hagrees := Compile.addComputes_agree hcat (fun _ _ => get?_withComponent_of_get? hn)
    (fun x _ => by rw [hpoints₁, hpoints₂, points_withComponent hn hcp])
    (hpoints₂ n ▸ List.mergeSort_perm _ _) ⟨fun _ _ h => h, fun _ _ => rfl, rfl⟩
    SupportMemo.recalls_empty SupportMemo.recalls_empty hdone₁ hdone₂
  obtain ⟨g₁, hg₁, hbefore⟩ := canReturn_bind_imp' hbefore
  obtain ⟨g₂, hg₂, hafter⟩ := canReturn_bind_imp' hafter
  obtain ⟨_, -, hbefore⟩ := canReturn_bind_imp' hbefore
  obtain ⟨_, -, hafter⟩ := canReturn_bind_imp' hafter
  cases eq_of_canReturn_pure (m := m) hbefore
  cases eq_of_canReturn_pure (m := m) hafter
  have hg₁ := ok_of_canReturn_liftM hg₁
  rw [← select_withComponent_filter (e := e) Component.storage? hn] at hg₁
  refine
    { resources := Compile.addStorages_agree hagrees.graph hg₁ (ok_of_canReturn_liftM hg₂)
      outputs := fun name o => outputs_of_compilesTo hn hcp h₁ h₂
      monitoring := fun name policies hname => ?_
      added := added_of_compilesTo hn hcp h₁ h₂ }
  have hne : name ≠ n := by
    rintro rfl
    cases hagrees.unmonitored.symm.trans hname
  exact (hagrees.monitoring name hne).trans hname

/-- Another server for the descriptor with the volume. -/
def secondServer : Component :=
  .compute { Compute.blank with networks := [⟨"net1", true, none, .empty⟩] }

theorem store_composes :
    ∃ before after,
      CanReturn (storeDescriptor.compile .default none oldCatalog) before
      ∧ CanReturn ((storeDescriptor.withComponent "VDU2" secondServer).compile .default none
        oldCatalog) after
      ∧ Composes "VDU2" secondServer before after := by
  have hok₁ : (storeDescriptor.compile .default none oldCatalog).run.toBool = true := by
    decide +kernel
  have hok₂ : ((storeDescriptor.withComponent "VDU2" secondServer).compile .default none
      oldCatalog).run.toBool = true := by
    decide +kernel
  rcases hc₁ : (storeDescriptor.compile .default none oldCatalog).run with fault | before
  · rw [hc₁] at hok₁
    cases hok₁
  rcases hc₂ : ((storeDescriptor.withComponent "VDU2" secondServer).compile .default none
      oldCatalog).run with fault | after
  · rw [hc₂] at hok₂
    cases hok₂
  have hbefore : CanReturn (storeDescriptor.compile .default none oldCatalog) before := hc₁
  have hafter : CanReturn ((storeDescriptor.withComponent "VDU2" secondServer).compile .default none
      oldCatalog) after := hc₂
  refine ⟨before, after, hbefore, hafter, compile_withComponent
    ⟨fun _ => .ok .empty, fun _ _ h => ?_⟩ rfl (fun p hp => ?_) hbefore hafter⟩
  · exact h.symm
  · cases hp

end Descriptor

end Provision
