import Provision.Proofs.Compiled

/-!
# The order of the ports of a server

A server is plugged into the ports of its network requirements as they are listed, then into its
connection points by their places (`pluggedInto_of_compile`). A connection point without a place
counts as one with the greatest place there is, so it comes last unless another has that place
itself: then the two go by name, and the one without a place may come first (`inPortOrder_iff`).
-/

namespace Provision

open MonadAttach LawfulMonadAttach

theorem eq_of_map_eq {α β : Type} {f : α → β} :
    ∀ {as bs : List α}, (∀ a ∈ as, ∀ b ∈ bs, f a = f b → a = b) → as.map f = bs.map f → as = bs
  | [], [], _, _ => rfl
  | [], _ :: _, _, h => nomatch h
  | _ :: _, [], _, h => nomatch h
  | a :: as, b :: bs, hinj, h => by
    rw [List.map_cons, List.map_cons, List.cons.injEq] at h
    have htail : as = bs := by
      refine eq_of_map_eq (fun x hx y hy => ?_) h.2
      exact hinj x (List.mem_cons_of_mem _ hx) y (List.mem_cons_of_mem _ hy)
    rw [hinj a List.mem_cons_self b List.mem_cons_self h.1, htail]

/-- A list in which what passes comes first is what passes and then the rest. -/
theorem eq_filter_append {α : Type} {p : α → Bool} :
    ∀ {as : List α}, as.Pairwise (fun a b => p b = true → p a = true) →
      as = as.filter p ++ as.filter fun a => !p a
  | [], _ => rfl
  | a :: as, h => by
    obtain ⟨ha, has⟩ := List.pairwise_cons.1 h
    by_cases hp : p a = true
    · rw [List.filter_cons_of_pos hp, List.filter_cons_of_neg (by simp [hp]), List.cons_append,
        ← eq_filter_append has]
    · have hnone : as.filter p = [] := List.filter_eq_nil_iff.2 fun b hb hpb => hp (ha b hb hpb)
      have hall : (as.filter fun a => !p a) = as := by
        refine List.filter_eq_self.2 fun b hb => ?_
        simpa using fun hpb => hp (ha b hb hpb)
      rw [List.filter_cons_of_neg hp, List.filter_cons_of_pos (by simpa using hp), hnone, hall,
        List.nil_append]

/-! ## Places -/

/-- The greatest place there is. -/
def ConnectionPoint.greatestPlace : Nat := Nat.pow 2 32 - 1

/-- The place of a connection point among the ports; the greatest there is for one without a
place. -/
def ConnectionPoint.place (p : ConnectionPoint) : Nat := p.order.getD greatestPlace

namespace Compile

/-- One connection point comes before another, by place and then by name. -/
def Before (p q : String × ConnectionPoint) : Prop :=
  p.2.place < q.2.place ∨ p.2.place = q.2.place ∧ p.1 < q.1

variable {p q r : String × ConnectionPoint} {points : List (String × ConnectionPoint)}

theorem pointLe_iff :
    pointLe p q = true ↔ p.2.place < q.2.place ∨ p.2.place = q.2.place ∧ p.1 ≤ q.1 := by
  rw [pointLe, Bool.or_eq_true, Bool.and_eq_true, decide_eq_true_iff, decide_eq_true_iff,
    beq_iff_eq]
  exact Iff.rfl

theorem pointLe_trans (h : pointLe p q = true) (h' : pointLe q r = true) :
    pointLe p r = true := by
  rw [pointLe_iff] at h h' ⊢
  rcases h with h | ⟨h, hname⟩
  · rcases h' with h' | ⟨h', -⟩
    · exact .inl (h.trans h')
    · exact .inl (h' ▸ h)
  · rcases h' with h' | ⟨h', hname'⟩
    · exact .inl (h ▸ h')
    · exact .inr ⟨h.trans h', String.le_trans hname hname'⟩

theorem pointLe_total (p q : String × ConnectionPoint) : pointLe p q || pointLe q p := by
  rw [Bool.or_eq_true, pointLe_iff, pointLe_iff]
  rcases Nat.lt_trichotomy p.2.place q.2.place with h | h | h
  · exact .inl (.inl h)
  · exact (String.le_total p.1 q.1).imp (fun hname => .inr ⟨h, hname⟩)
      fun hname => .inr ⟨h.symm, hname⟩
  · exact .inr (.inl h)

theorem before_of_pointLe (h : pointLe p q = true) (hne : p.1 ≠ q.1) : Before p q := by
  refine (pointLe_iff.1 h).imp_right fun ⟨hplace, hname⟩ => ⟨hplace, ?_⟩
  refine (lt_or_gt_of_ne hne).resolve_right fun hgt => ?_
  exact String.not_lt.2 hname hgt

/-- Connection points with names of their own are sorted strictly. -/
theorem before_mergeSort (hn : (points.map Prod.fst).Nodup) :
    (points.mergeSort pointLe).Pairwise Before := by
  have hsorted : (points.mergeSort pointLe).Pairwise fun p q => pointLe p q = true :=
    @List.pairwise_mergeSort _ pointLe (fun _ _ _ => pointLe_trans) pointLe_total points
  have hdistinct : ((points.mergeSort pointLe).map Prod.fst).Nodup :=
    ((List.mergeSort_perm points pointLe).map Prod.fst).nodup_iff.2 hn
  exact hsorted.imp₂ (fun _ _ => before_of_pointLe) (List.pairwise_map.1 hdistinct)

end Compile

/-! ## The order of ports -/

namespace Descriptor

variable {d : Descriptor} {name : String} {c : Compute}

/-- Both connection points have a place, and one comes before the other by place and then by
name. -/
def PlacedBefore (p q : String × ConnectionPoint) : Prop :=
  ∃ i j, p.2.order = some i ∧ q.2.order = some j ∧ (i < j ∨ i = j ∧ p.1 < q.1)

/-- The ports of a server in order: those of the network requirements as they are listed, the
connection points that have a place by place and then by name, and the others by name. -/
def InPortOrder (d : Descriptor) (name : String) (c : Compute) (ports : List String) : Prop :=
  ∃ placed unplaced : List (String × ConnectionPoint),
    ports = (c.networks.map fun r => portName name r.network)
        ++ (placed.map Prod.fst ++ unplaced.map Prod.fst)
      ∧ placed.Perm ((d.points name).filter fun p => p.2.order.isSome)
      ∧ placed.Pairwise PlacedBefore
      ∧ unplaced.Perm ((d.points name).filter fun p => !p.2.order.isSome)
      ∧ unplaced.Pairwise fun p q => p.1 < q.1

/-- Every connection point that has a place comes before every one that has none: by the greatest
place, which the latter count as having, or else by name. -/
def PlacesFirst (d : Descriptor) (name : String) : Prop :=
  ∀ p ∈ d.points name, ∀ q ∈ d.points name, q.2.order = none → ∀ i, p.2.order = some i →
    i < ConnectionPoint.greatestPlace ∨ i = ConnectionPoint.greatestPlace ∧ p.1 < q.1

theorem nodup_points (d : Descriptor) (name : String) :
    ((d.points name).map Prod.fst).Nodup :=
  (nodup_select Component.connectionPoint?).sublist (List.filter_sublist.map Prod.fst)

theorem inPortOrder_iff {points : List (String × ConnectionPoint)}
    (hperm : points.Perm (d.points name)) (hsorted : points.Pairwise Compile.Before) :
    d.InPortOrder name c ((c.networks.map fun r => portName name r.network)
      ++ points.map Prod.fst) ↔ d.PlacesFirst name := by
  constructor
  · rintro ⟨placed, unplaced, hports, hplaced, -, hunplaced, -⟩ p hp q hq hnone i hi
    have hall : (placed ++ unplaced).Perm (d.points name) :=
      (hplaced.append hunplaced).trans (List.filter_append_perm _ _)
    have hnames : points.map Prod.fst = (placed ++ unplaced).map Prod.fst := by
      rw [List.map_append]
      exact List.append_cancel_left hports
    have heq : points = placed ++ unplaced := by
      refine eq_of_map_eq (fun a ha b hb => ?_) hnames
      exact List.inj_on_of_nodup_map (d.nodup_points name) (hperm.mem_iff.1 ha) (hall.mem_iff.1 hb)
    rw [heq, List.pairwise_append] at hsorted
    have hp' : p ∈ placed := hplaced.mem_iff.2 (List.mem_filter.2 ⟨hp, by simp [hi]⟩)
    have hq' : q ∈ unplaced := hunplaced.mem_iff.2 (List.mem_filter.2 ⟨hq, by simp [hnone]⟩)
    have hbefore := hsorted.2.2 p hp' q hq'
    rwa [Compile.Before, ConnectionPoint.place, ConnectionPoint.place, hi, hnone] at hbefore
  · intro hfirst
    have hsplit : points.Pairwise fun p q => q.2.order.isSome = true → p.2.order.isSome = true := by
      refine hsorted.imp_of_mem fun {p q} hp hq hbefore hsome => ?_
      obtain ⟨i, hi⟩ := Option.isSome_iff_exists.1 hsome
      by_contra hnone
      rw [Option.not_isSome_iff_eq_none] at hnone
      have hq' := hfirst q (hperm.mem_iff.1 hq) p (hperm.mem_iff.1 hp) hnone i hi
      rw [Compile.Before, ConnectionPoint.place, ConnectionPoint.place, hi, hnone,
        Option.getD_none, Option.getD_some] at hbefore
      rcases hbefore with hlt | ⟨rfl, hname⟩
      · omega
      · exact String.lt_asymm hname (hq'.resolve_left (Nat.lt_irrefl _)).2
    refine ⟨points.filter fun p => p.2.order.isSome, points.filter fun p => !p.2.order.isSome,
      ?_, hperm.filter _, ?_, hperm.filter _, ?_⟩
    · rw [← List.map_append, ← eq_filter_append hsplit]
    · refine (hsorted.filter _).imp_of_mem fun {p q} hp hq hbefore => ?_
      obtain ⟨i, hi⟩ := Option.isSome_iff_exists.1 (List.mem_filter.1 hp).2
      obtain ⟨j, hj⟩ := Option.isSome_iff_exists.1 (List.mem_filter.1 hq).2
      rw [Compile.Before, ConnectionPoint.place, ConnectionPoint.place, hi, hj] at hbefore
      exact ⟨i, j, hi, hj, hbefore⟩
    · refine (hsorted.filter _).imp_of_mem fun {p q} hp hq hbefore => ?_
      have hpnone : p.2.order = none := by simpa using (List.mem_filter.1 hp).2
      have hqnone : q.2.order = none := by simpa using (List.mem_filter.1 hq).2
      rw [Compile.Before, ConnectionPoint.place, ConnectionPoint.place, hpnone, hqnone] at hbefore
      exact (hbefore.resolve_left (Nat.lt_irrefl _)).2

end Descriptor

/-! ## What a server is plugged into -/

/-- The networks of the server are those ports, in that order. -/
def Resource.PluggedInto (server : Resource) (ports : List String) : Prop :=
  server.properties.get? "networks" = if ports = [] then none
    else some (.list (ports.map fun port => .single "port" (.resource port)))

namespace Compile

variable {d : Descriptor} {s : Substitution} {name : String} {c : Compute}

theorem Unplugged.pluggedInto {requests : List PortRequest} {server : Resource}
    (h : Unplugged server) :
    (plugged requests server).PluggedInto (requests.map PortRequest.name) := by
  unfold plugged Resource.PluggedInto
  rcases requests with _ | ⟨r, rs⟩
  · exact h.2
  · rw [List.map_map]
    exact Table.get?_put.trans (if_pos rfl)

theorem names_of_portRequests {points : List (String × ConnectionPoint)}
    {requests : List PortRequest} (h : portRequests d name c points s = .ok requests) :
    requests.map PortRequest.name
      = (c.networks.map fun r => portName name r.network) ++ points.map Prod.fst := by
  obtain ⟨inline, hinline, h⟩ := bind_eq_ok_iff.1 h
  obtain ⟨declared, hdeclared, h⟩ := bind_eq_ok_iff.1 h
  dsimp only at h
  split at h
  · cases h
  · cases h
    have hrequirement (r : NetworkRequirement) (request : PortRequest)
        (hr : requirementPort name s r = .ok request) : request.name = portName name r.network :=
      congrArg (·.1.1) (label_of_requirementPort hr)
    have hpoint (p : String × ConnectionPoint) (request : PortRequest)
        (hp : connectionPort d name s p = .ok request) : request.name = p.1 :=
      congrArg (·.1.1) (label_of_connectionPort hp)
    rw [List.map_append, map_of_mapM hrequirement hinline, map_of_mapM hpoint hdeclared]

variable {m : Type → Type} [Monad m] [LawfulMonad m] [MonadAttach m] [LawfulMonadAttach m]
variable {catalog : Catalog m} {settings : CompilerSettings} {memo memo' : SupportMemo}

theorem pluggedInto_of_addCompute {points : List (String × ConnectionPoint)}
    {g g' : ResourceGraph}
    (h : CanReturn (addCompute settings catalog d points s name c g memo) (g', memo')) :
    ∃ server, g'.resource? name = some server ∧ server.type = serverType
      ∧ server.PluggedInto
        ((c.networks.map fun r => portName name r.network) ++ points.map Prod.fst) := by
  obtain ⟨⟨g₁, server₁⟩, himage, h⟩ := canReturn_bind_imp' h
  obtain ⟨⟨g₂, server₂⟩, hflavor, h⟩ := canReturn_bind_imp' h
  obtain ⟨server₃, hdetails, h⟩ := canReturn_bind_imp' h
  obtain ⟨requests, hrequests, h⟩ := canReturn_bind_imp' h
  obtain ⟨⟨g₃, memo₃⟩, -, h⟩ := canReturn_bind_imp' h
  obtain ⟨g₄, hserver, h⟩ := canReturn_bind_imp' h
  cases eq_of_canReturn_pure (m := m) h
  have hnew : Unplugged (Resource.new serverType) := ⟨rfl, rfl⟩
  have hu₁ := (of_addImage (ok_of_canReturn_liftM himage) hnew).2.2
  have hu₂ := (of_addFlavor (ok_of_canReturn_liftM hflavor) hu₁).2.2
  have hu₃ := hu₂.setDetails (ok_of_canReturn_liftM hdetails)
  refine ⟨plugged requests server₃, (of_add (ok_of_canReturn_liftM hserver)).2.1,
    type_plugged.trans hu₃.1, ?_⟩
  rw [← names_of_portRequests (ok_of_canReturn_liftM hrequests)]
  exact hu₃.pluggedInto

theorem pluggedInto_of_addComputes {points : PointsByCompute} {cs : List (String × Compute)}
    {done done' : Compiled}
    (hpoints : ∀ compute, ((points.get? compute).getD []).Perm (d.points compute))
    (hn : (cs.map Prod.fst).Nodup)
    (h : CanReturn (addComputes settings catalog d points s cs done memo) done') :
    ∀ e ∈ cs, ∃ server, done'.graph.resource? e.1 = some server ∧ server.type = serverType
      ∧ server.PluggedInto ((e.2.networks.map fun r => portName e.1 r.network)
        ++ ((points.get? e.1).getD []).map Prod.fst) := by
  induction cs generalizing done memo with
  | nil => simp
  | cons e cs ih =>
    obtain ⟨name, c⟩ := e
    rw [List.map_cons, List.nodup_cons] at hn
    obtain ⟨⟨g₁, memo₁⟩, hcompute, h⟩ := canReturn_bind_imp' h
    obtain ⟨monitoring, -, h⟩ := canReturn_bind_imp' h
    obtain ⟨server, hget, hserver⟩ := pluggedInto_of_addCompute hcompute
    refine List.forall_mem_cons.2 ⟨?_, ih hn.2 h⟩
    exact ⟨server, (of_addComputes hpoints hn.2 h).adds.kept _ _ hget, hserver⟩

end Compile

namespace Descriptor

variable {d : Descriptor} {name : String} {c : Compute}

section Monad

variable {m : Type → Type} [Monad m] [LawfulMonad m] [MonadAttach m] [LawfulMonadAttach m]
variable {catalog : Catalog m} {settings : CompilerSettings} {parameters : Option Parameters}
variable {compiled : Compiled}

theorem pluggedInto_of_compile (h : CanReturn (d.compile settings parameters catalog) compiled)
    (hc : d.components.get? name = some (.compute c)) :
    ∃ server, compiled.graph.resource? name = some server ∧ server.type = serverType
      ∧ server.PluggedInto ((c.networks.map fun r => portName name r.network)
        ++ ((d.points name).mergeSort Compile.pointLe).map Prod.fst) := by
  obtain ⟨s, -, h⟩ := canReturn_bind_imp' h
  obtain ⟨filed, hfiled, h⟩ := canReturn_bind_imp' h
  obtain ⟨done, hdone, h⟩ := canReturn_bind_imp' h
  obtain ⟨g, hg, h⟩ := canReturn_bind_imp' h
  obtain ⟨u, -, h⟩ := canReturn_bind_imp' h
  cases eq_of_canReturn_pure (m := m) h
  have hpoints := (Compile.of_pointsByCompute (ok_of_canReturn_liftM hfiled)).2
  obtain ⟨server, hget, htype, hplugged⟩ := Compile.pluggedInto_of_addComputes
    (fun compute => hpoints compute ▸ List.mergeSort_perm _ _) (nodup_select _) hdone
    (name, c) (mem_computes.2 hc)
  rw [hpoints] at hplugged
  have hkept := (Compile.of_addStorages (ok_of_canReturn_liftM hg)).1.kept
  exact ⟨server, hkept _ _ hget, htype, hplugged⟩

/-- A server is plugged into the ports of its network requirements as they are listed, and then into
its connection points by place and by name, where those without a place count as having the
greatest. The ports are in order if and only if none without a place comes before one that has the
greatest place itself. -/
theorem ports_inOrder_iff (h : CanReturn (d.compile settings parameters catalog) compiled)
    (hc : d.components.get? name = some (.compute c)) :
    ∃ (server : Resource) (points : List (String × ConnectionPoint)),
      compiled.graph.resource? name = some server ∧ server.type = serverType
      ∧ points.Perm (d.points name) ∧ points.Pairwise Compile.Before
      ∧ server.PluggedInto ((c.networks.map fun r => portName name r.network)
        ++ points.map Prod.fst)
      ∧ (d.InPortOrder name c ((c.networks.map fun r => portName name r.network)
        ++ points.map Prod.fst) ↔ d.PlacesFirst name) := by
  obtain ⟨server, hget, htype, hplugged⟩ := pluggedInto_of_compile h hc
  have hperm := List.mergeSort_perm (d.points name) Compile.pointLe
  have hsorted := Compile.before_mergeSort (d.nodup_points name)
  exact ⟨server, _, hget, htype, hperm, hsorted, hplugged, inPortOrder_iff hperm hsorted⟩

end Monad

/-! ## Two connection points -/

/-- A connection point of the server with the given place. -/
def pointAt (place : Option Nat) : ConnectionPoint where
  binding := "VDU1"
  link := "VL1"
  management := false
  antiSpoofing := none
  vnic := none
  addresses := none
  order := place
  properties := .empty

/-- A server with two connection points at the given places. -/
def twoPoints (first second : Option Nat) : Descriptor :=
  ((((Descriptor.named "w").withComponent "VDU1" (.compute .blank)).withComponent "VL1"
    (.networkLink ⟨.string "net0"⟩)).withComponent "CPA"
      (.connectionPoint (pointAt first))).withComponent "CPB" (.connectionPoint (pointAt second))

section

variable {first second : Option Nat}
  (h : Compile.pointLe ("CPA", pointAt first) ("CPB", pointAt second) = true)

theorem points_twoPoints :
    (twoPoints first second).points "VDU1" = [("CPA", pointAt first), ("CPB", pointAt second)] :=
  rfl

include h

theorem mergeSort_twoPoints :
    ((twoPoints first second).points "VDU1").mergeSort Compile.pointLe
      = (twoPoints first second).points "VDU1" :=
  List.mergeSort_of_pairwise (by simpa [points_twoPoints] using h)

-- Sorting does not compute, so the points are put in order here and the rest is computed.
theorem pointsByCompute_twoPoints :
    Compile.pointsByCompute (twoPoints first second)
      = .ok (Table.empty.put "VDU1" ((twoPoints first second).points "VDU1")) := by
  rw [← mergeSort_twoPoints h]
  exact congrArg (fun filed => Except.ok (Table.map _ filed))
    (Table.put_put (t := .empty) "VDU1" [("CPA", pointAt first)] _)

end

theorem twoPoints_inOrder :
    ∃ (compiled : Compiled) (server : Resource) (ports : List String),
      CanReturn ((twoPoints (some 0) none).compile .default none oldCatalog) compiled
      ∧ (twoPoints (some 0) none).components.get? "VDU1" = some (.compute .blank)
      ∧ compiled.graph.resource? "VDU1" = some server ∧ server.PluggedInto ports
      ∧ (twoPoints (some 0) none).InPortOrder "VDU1" .blank ports := by
  have hok : ((twoPoints (some 0) none).compile .default none oldCatalog).run.toBool = true := by
    rw [compile, pointsByCompute_twoPoints (by decide)]
    decide +kernel
  obtain ⟨compiled, hreturn⟩ :
      ∃ compiled, CanReturn ((twoPoints (some 0) none).compile .default none oldCatalog) compiled :=
    exists_ok_of_toBool hok
  have hcompute : (twoPoints (some 0) none).components.get? "VDU1" = some (.compute .blank) := rfl
  have hfirst : (twoPoints (some 0) none).PlacesFirst "VDU1" := by
    rw [PlacesFirst, points_twoPoints]
    simp [pointAt, ConnectionPoint.greatestPlace]
  obtain ⟨server, points, hget, -, -, -, hplugged, hiff⟩ := ports_inOrder_iff hreturn hcompute
  exact ⟨compiled, server, _, hreturn, hcompute, hget, hplugged, hiff.2 hfirst⟩

/-- A connection point without a place, and one that has the greatest. -/
def rivalPoints : Descriptor := twoPoints none (some ConnectionPoint.greatestPlace)

/-- The connection point without a place comes before the one that has the greatest. -/
theorem rivalPoints_swapped :
    ∃ (compiled : Compiled) (server : Resource),
      CanReturn (rivalPoints.compile .default none oldCatalog) compiled
      ∧ compiled.graph.resource? "VDU1" = some server ∧ server.PluggedInto ["CPA", "CPB"]
      ∧ ¬ rivalPoints.InPortOrder "VDU1" .blank ["CPA", "CPB"] := by
  have hsorted : Compile.pointLe ("CPA", pointAt none)
      ("CPB", pointAt (some ConnectionPoint.greatestPlace)) = true := by
    decide
  have hok : (rivalPoints.compile .default none oldCatalog).run.toBool = true := by
    rw [compile, rivalPoints, pointsByCompute_twoPoints hsorted]
    decide +kernel
  obtain ⟨compiled, hreturn⟩ :
      ∃ compiled, CanReturn (rivalPoints.compile .default none oldCatalog) compiled :=
    exists_ok_of_toBool hok
  have hcompute : rivalPoints.components.get? "VDU1" = some (.compute .blank) := rfl
  obtain ⟨server, hget, -, hplugged⟩ := pluggedInto_of_compile hreturn hcompute
  have hbefore := Compile.before_mergeSort (rivalPoints.nodup_points "VDU1")
  rw [rivalPoints, mergeSort_twoPoints hsorted] at hplugged hbefore
  refine ⟨compiled, server, hreturn, hget, hplugged, fun hin => ?_⟩
  have hfirst := (inPortOrder_iff (c := .blank) (.refl _) hbefore).1 hin
  have hlast := hfirst ("CPB", pointAt (some ConnectionPoint.greatestPlace))
    (by simp [points_twoPoints]) ("CPA", pointAt none) (by simp [points_twoPoints]) rfl _ rfl
  revert hlast
  decide

end Descriptor

end Provision
