import Provision.Proofs.Restoring

/-!
# Descriptors are written and read again

A descriptor that was read from a JSON value can be written as one, and reading that gives the same
descriptor, whatever was left out, was nothing, or was a whole number where others stand.

The leaves are where this could fail, for an object with one member may be taken for the input that
it names. But what a leaf is written as is text only if the leaf was text, so that no object comes
to look like an input (`Leaf.Resaid`). The rest is the records, one lemma for each.
-/

namespace Provision

namespace Leaf

theorem ofItems_eq (xs : List Value) : ofItems xs = xs.map ofValue := by
  induction xs with
  | nil => rfl
  | cons x xs ih => rw [ofItems, ih, List.map_cons]

theorem ofMembers_eq (ms : List (String × Value)) :
    ofMembers ms = ms.map fun m => (m.1, ofValue m.2) := by
  induction ms with
  | nil => rfl
  | cons m ms ih => rw [ofMembers, ih, List.map_cons]

theorem toItems_eq (xs : List Leaf) : toItems xs = xs.map toValue := by
  induction xs with
  | nil => rfl
  | cons x xs ih => rw [toItems, ih, List.map_cons]

theorem toMembers_eq (es : List (String × Leaf)) :
    toMembers es = es.map fun e => (e.1, e.2.toValue) := by
  induction es with
  | nil => rfl
  | cons e es ih => rw [toMembers, ih, List.map_cons]

theorem inputOf?_eq_some_iff {ms : List (String × Value)} {name : String} :
    inputOf? ms = some name ↔ ms = [(inputKey, .string name)] := by
  constructor
  · intro h
    unfold inputOf? at h
    split at h
    · split_ifs at h with hkey
      cases h
      rw [hkey]
    · cases h
  · rintro rfl
    simp [inputOf?]

/-- The leaf that a value says is written as a JSON value that says the same leaf, as nothing only
if it was nothing, and as text only if it was the same text. -/
structure Resaid (w : Value) : Prop where
  fits : (ofValue w).toValue.Fits
  ordered : (ofValue w).toValue.Ordered
  again : ofValue (ofValue w).toValue = ofValue w
  null : (ofValue w).toValue = .null → w = .null
  text : ∀ s, (ofValue w).toValue = .string s → w = .string s

theorem Resaid.of_eq {w : Value} (h : w.Fits) (ho : w.Ordered) (heq : (ofValue w).toValue = w) :
    Resaid w := by
  refine ⟨?_, ?_, ?_, ?_, ?_⟩
  · rwa [heq]
  · rwa [heq]
  · rw [heq]
  · rw [heq]
    exact id
  · rw [heq]
    exact fun _ => id

theorem resaid_int {i : Int} (hlow : Binary64.int64Min ≤ i) (hhigh : i < Nat.pow 2 64) :
    Resaid (.int i) := by
  by_cases hrange : Binary64.int64Min ≤ i ∧ i ≤ Binary64.int64Max
  · refine .of_eq (.int hlow hhigh) trivial ?_
    rw [ofValue, ofInt, if_pos hrange, toValue]
  · have hof : ofValue (.int i) = .float (Binary64.ofInt i) := if_neg hrange
    have hto : (ofValue (.int i)).toValue = .float (Binary64.ofInt i) := by
      rw [hof, toValue, Value.ofFloat, if_pos (Binary64.isFinite_ofInt hlow hhigh)]
    refine ⟨?_, ?_, ?_, ?_, ?_⟩
    · rw [hto]
      exact .float (Binary64.isFinite_ofInt hlow hhigh)
    · rw [hto]
      trivial
    · rw [hto, hof, ofValue]
    · rw [hto]
      nofun
    · rw [hto]
      nofun

theorem toValue_ofValue_list (xs : List Value) :
    (ofValue (.list xs)).toValue = .list (xs.map fun x => (ofValue x).toValue) := by
  rw [ofValue, toValue, ofItems_eq, toItems_eq, List.map_map]
  rfl

theorem toValue_ofValue_object {ms : List (String × Value)} (h : inputOf? ms = none) :
    (ofValue (.object ms)).toValue = .object (ms.map fun m => (m.1, (ofValue m.2).toValue)) := by
  rw [ofValue, h]
  dsimp only
  rw [toValue, ofMembers_eq, toMembers_eq, List.map_map]
  rfl

/-- No object comes to look like an input. -/
theorem inputOf?_resaid {ms : List (String × Value)} (hms : ∀ m ∈ ms, Resaid m.2)
    (h : inputOf? ms = none) :
    inputOf? (ms.map fun m => (m.1, (ofValue m.2).toValue)) = none := by
  refine Option.eq_none_iff_forall_ne_some.2 fun name hname => ?_
  rw [inputOf?_eq_some_iff] at hname
  obtain ⟨m, rfl, hm⟩ := List.map_eq_singleton_iff.1 hname
  obtain ⟨key, v⟩ := m
  obtain ⟨rfl, hv⟩ := Prod.mk.inj hm
  obtain rfl : v = .string name := (hms _ List.mem_cons_self).text name hv
  rw [inputOf?_eq_some_iff.2 rfl] at h
  cases h

theorem resaid {w : Value} (h : w.Fits) (ho : w.Ordered) : Resaid w := by
  induction h with
  | null => exact .of_eq .null ho rfl
  | bool b => exact .of_eq (.bool b) ho rfl
  | string s => exact .of_eq (.string s) ho rfl
  | int hlow hhigh => exact resaid_int hlow hhigh
  | float hx => exact .of_eq (.float hx) ho (if_pos hx)
  | @list xs _ ih =>
    rw [Value.ordered_list] at ho
    have hall : ∀ x ∈ xs, Resaid x := fun x hx => ih x hx (ho x hx)
    have hto := toValue_ofValue_list xs
    refine ⟨?_, ?_, ?_, ?_, ?_⟩
    · rw [hto]
      refine .list fun y hy => ?_
      obtain ⟨x, hx, rfl⟩ := List.mem_map.1 hy
      exact (hall x hx).fits
    · rw [hto, Value.ordered_list]
      intro y hy
      obtain ⟨x, hx, rfl⟩ := List.mem_map.1 hy
      exact (hall x hx).ordered
    · rw [hto, ofValue, ofValue, ofItems_eq, ofItems_eq, List.map_map]
      exact congrArg Leaf.list (List.map_congr_left fun x hx => (hall x hx).again)
    · rw [hto]
      intro h
      cases h
    · rw [hto]
      intro s h
      cases h
  | @object ms hms ih =>
    rcases hinput : inputOf? ms with _ | name
    · have hordered := ho
      rw [Value.ordered_object] at hordered
      have hall : ∀ m ∈ ms, Resaid m.2 := fun m hm => ih m hm (hordered.2 m hm)
      have hto := toValue_ofValue_object hinput
      refine ⟨?_, ?_, ?_, ?_, ?_⟩
      · rw [hto]
        refine .object fun n hn => ?_
        obtain ⟨m, hm, rfl⟩ := List.mem_map.1 hn
        exact (hall m hm).fits
      · rw [hto, Value.ordered_object, Entries.names, List.map_map]
        refine ⟨hordered.1, fun n hn => ?_⟩
        obtain ⟨m, hm, rfl⟩ := List.mem_map.1 hn
        exact (hall m hm).ordered
      · rw [hto, ofValue, inputOf?_resaid hall hinput, ofValue, hinput]
        dsimp only
        rw [ofMembers_eq, ofMembers_eq, List.map_map]
        refine congrArg Leaf.map (List.map_congr_left fun m hm => ?_)
        exact congrArg (Prod.mk m.1) (hall m hm).again
      · rw [hto]
        intro h
        cases h
      · rw [hto]
        intro s h
        cases h
    · refine .of_eq (.object hms) ho ?_
      rw [ofValue, hinput, inputOf?_eq_some_iff.1 hinput]
      rfl

theorem restores : Restores toValue ofNode? := by
  intro v l hv hl
  obtain ⟨w, hw, rfl⟩ := Option.map_eq_some_iff.1 hl
  obtain ⟨hfits, hordered, hnull⟩ := Node.of_value?_ofValue hv hw
  have hresaid := resaid hfits hordered
  refine ⟨⟨hresaid.fits, hresaid.ordered, ?_⟩, fun h => hnull (hresaid.null h)⟩
  rw [ofNode?, Node.value?_ofValue hresaid.fits hresaid.ordered, Option.map_some, hresaid.again]

theorem restores_table : Restores toTableValue tableOfNode? := restores.table

end Leaf

theorem VnicKind.restores :
    Restores (fun k : VnicKind => .string k.name) fun n => n.variant? >>= VnicKind.ofName? := by
  intro v k _ _
  cases k with
  | sriov => exact ⟨⟨.string _, trivial, rfl⟩, nofun⟩
  | vnic => exact ⟨⟨.string _, trivial, rfl⟩, nofun⟩

/-! ## Records -/

theorem InputDecl.restores : Restores toValue ofNode? := by
  refine Restores.ofMembers (fun fs i hfs h => ?_) fun _ => by simp [Entries.names]
  simp only [Option.bind_eq_bind, Option.bind_eq_some_iff] at h
  obtain ⟨description, h₁, default?, h₂, h⟩ := h
  cases h
  exact .field (.optional .text hfs h₁) (.field (.optional .value hfs h₂) .done)

theorem Capabilities.restores : Restores toValue ofNode? := by
  refine Restores.ofMembers (fun fs c hfs h => ?_) fun _ => by simp [Entries.names]
  simp only [Option.bind_eq_bind, Option.bind_eq_some_iff] at h
  obtain ⟨numCpus, h₁, diskSize, h₂, memSize, h₃, memPageSize, h₄, numaNodeCount, h₅,
    numaNodes, h₆, cpuAllocation, h₇, h⟩ := h
  cases h
  exact .field (.optional Leaf.restores hfs h₁) <| .field (.optional Leaf.restores hfs h₂) <|
    .field (.optional Leaf.restores hfs h₃) <| .field (.optional Leaf.restores hfs h₄) <|
    .field (.optional Leaf.restores hfs h₅) <| .field (.table Leaf.restores_table hfs h₆) <|
    .field (.table Leaf.restores hfs h₇) .done

theorem NetworkRequirement.restores : Restores toValue ofNode? := by
  refine Restores.ofMembers (fun fs r hfs h => ?_) fun _ => by simp [Entries.names]
  simp only [Option.bind_eq_bind, Option.bind_eq_some_iff] at h
  obtain ⟨network, h₁, management, h₂, addresses, h₃, properties, h₄, h⟩ := h
  cases h
  exact .field (.required .text hfs h₁) <| .field (.flag hfs h₂) <|
    .field (.optional Leaf.restores hfs h₃) <| .field (.table Leaf.restores hfs h₄) .done

theorem MonitoringPolicy.restores : Restores toValue ofNode? := by
  refine Restores.ofMembers (fun fs p hfs h => ?_) fun _ => by simp [Entries.names]
  simp only [Option.bind_eq_bind, Option.bind_eq_some_iff] at h
  obtain ⟨name, h₁, parameters, h₂, actions, h₃, h⟩ := h
  cases h
  exact .field (.required .text hfs h₁) <| .field (.table Leaf.restores hfs h₂) <|
    .field (.table .text hfs h₃) .done

theorem ImageArtifact.restores : Restores toValue ofNode? := by
  change Restores (fun a => .ofMembers [("file", Leaf.toOptionalValue a.file)]) ofNode?
  refine Restores.ofMembers (fun fs a hfs h => ?_) fun _ => by simp [Entries.names]
  simp only [Option.bind_eq_bind, Option.bind_eq_some_iff] at h
  obtain ⟨file, h₁, h⟩ := h
  cases h
  exact .field (.optional Leaf.restores hfs h₁) .done

theorem Compute.recorded : Recorded toMembers ofNode? := by
  refine ⟨_, _, fun _ => rfl, fun fs c hfs h => ?_⟩
  simp only [Option.bind_eq_bind, Option.bind_eq_some_iff] at h
  obtain ⟨image, h₁, artifact, h₂, flavor, h₃, capabilities, h₄, networks, h₅, metadata, h₆,
    monitoringPolicy, h₇, userData, h₈, keyName, h₉, availabilityZone, h₁₀, h⟩ := h
  cases h
  exact .field (.optional Leaf.restores hfs h₁) <|
    .field (.optional ImageArtifact.restores hfs h₂) <|
    .field (.optional Leaf.restores hfs h₃) <|
    .field (.optional Capabilities.restores hfs h₄) <|
    .field (.list NetworkRequirement.restores hfs h₅) <|
    .field (.table Leaf.restores hfs h₆) <|
    .field (.optional MonitoringPolicy.restores hfs h₇) <|
    .field (.optional Leaf.restores hfs h₈) <| .field (.optional Leaf.restores hfs h₉) <|
    .field (.optional Leaf.restores hfs h₁₀) .done

theorem Storage.recorded : Recorded toMembers ofNode? := by
  refine ⟨_, _, fun _ => rfl, fun fs s hfs h => ?_⟩
  simp only [Option.bind_eq_bind, Option.bind_eq_some_iff] at h
  obtain ⟨size, h₁, image, h₂, attachedTo, h₃, mountPoint, h₄, h⟩ := h
  cases h
  exact .field (.required Leaf.restores hfs h₁) <| .field (.optional Leaf.restores hfs h₂) <|
    .field (.required .text hfs h₃) <| .field (.optional .text hfs h₄) .done

theorem NetworkLink.recorded : Recorded toMembers ofNode? := by
  refine ⟨_, _, fun _ => rfl, fun fs l hfs h => ?_⟩
  simp only [Option.bind_eq_bind, Option.bind_eq_some_iff] at h
  obtain ⟨networkName, h₁, h⟩ := h
  cases h
  exact .field (.required Leaf.restores hfs h₁) .done

theorem ConnectionPoint.recorded : Recorded toMembers ofNode? := by
  refine ⟨_, _, fun _ => rfl, fun fs p hfs h => ?_⟩
  simp only [Option.bind_eq_bind, Option.bind_eq_some_iff] at h
  obtain ⟨binding, h₁, link, h₂, management, h₃, antiSpoofing, h₄, vnic, h₅, addresses, h₆,
    order, h₇, properties, h₈, h⟩ := h
  cases h
  exact .field (.required .text hfs h₁) <| .field (.required .text hfs h₂) <|
    .field (.flag hfs h₃) <| .field (.optional .bool hfs h₄) <|
    .field (.optional VnicKind.restores hfs h₅) <| .field (.optional Leaf.restores hfs h₆) <|
    .field (.optional (.nat (by decide)) hfs h₇) <| .field (.table Leaf.restores hfs h₈) .done

theorem ScalingPolicy.recorded : Recorded toMembers ofNode? := by
  refine ⟨_, _, fun _ => rfl, fun fs p hfs h => ?_⟩
  simp only [Option.bind_eq_bind, Option.bind_eq_some_iff] at h
  obtain ⟨name, h₁, targets, h₂, least, h₃, greatest, h₄, desired, h₅, increment, h₆,
    cooldown, h₇, h⟩ := h
  cases h
  have hcount : Restores .ofNat (Node.nat? (Nat.pow 2 32)) := .nat (by decide)
  exact .field (.required .text hfs h₁) <| .field (.required (.list .text) hfs h₂) <|
    .field (.required hcount hfs h₃) <| .field (.required hcount hfs h₄) <|
    .field (.required hcount hfs h₅) <| .field (.required hcount hfs h₆) <|
    .field (.required hcount hfs h₇) .done

theorem AlarmPolicy.recorded : Recorded toMembers ofNode? := by
  refine ⟨_, _, fun _ => rfl, fun fs a hfs h => ?_⟩
  simp only [Option.bind_eq_bind, Option.bind_eq_some_iff] at h
  obtain ⟨name, h₁, metadata, h₂, meterName, h₃, comparison, h₄, period, h₅, evaluationPeriods, h₆,
    statistic, h₇, threshold, h₈, actions, h₉, h⟩ := h
  cases h
  exact .field (.required .text hfs h₁) <| .field (.required .text hfs h₂) <|
    .field (.required .text hfs h₃) <| .field (.required .text hfs h₄) <|
    .field (.required (.nat (by decide)) hfs h₅) <|
    .field (.required (.nat (by decide)) hfs h₆) <| .field (.required .text hfs h₇) <|
    .field (.required .float hfs h₈) <| .field (.list .text hfs h₉) .done

/-! ## Components and policies -/

theorem Component.restores : Restores toValue ofNode? := by
  intro v x hv hx
  obtain ⟨⟨kind, n⟩, ht, h⟩ := Option.bind_eq_some_iff.1 hx
  dsimp only at h
  -- The kind that was read decides which record it is; it is written with this kind again.
  split at h
  · refine Compute.recorded.ofKind compute ?_ (fun _ => ?_) (fun m n h => ?_) hv ht hx
    · simp [Entries.names, kindField, Compute.toMembers]
    · rfl
    · rw [ofNode?, h]
      rfl
  · refine Storage.recorded.ofKind storage ?_ (fun _ => ?_) (fun m n h => ?_) hv ht hx
    · simp [Entries.names, kindField, Storage.toMembers]
    · rfl
    · rw [ofNode?, h]
      rfl
  · refine NetworkLink.recorded.ofKind networkLink ?_ (fun _ => ?_) (fun m n h => ?_) hv ht hx
    · simp [Entries.names, kindField, NetworkLink.toMembers]
    · rfl
    · rw [ofNode?, h]
      rfl
  · refine ConnectionPoint.recorded.ofKind connectionPoint ?_ (fun _ => ?_) (fun m n h => ?_) hv ht
      hx
    · simp [Entries.names, kindField, ConnectionPoint.toMembers]
    · rfl
    · rw [ofNode?, h]
      rfl
  · cases h

theorem Policy.restores : Restores toValue ofNode? := by
  intro v x hv hx
  obtain ⟨⟨kind, n⟩, ht, h⟩ := Option.bind_eq_some_iff.1 hx
  dsimp only at h
  split at h
  · refine ScalingPolicy.recorded.ofKind scaling ?_ (fun _ => ?_) (fun m n h => ?_) hv ht hx
    · simp [Entries.names, kindField, ScalingPolicy.toMembers]
    · rfl
    · rw [ofNode?, h]
      rfl
  · refine AlarmPolicy.recorded.ofKind alarm ?_ (fun _ => ?_) (fun m n h => ?_) hv ht hx
    · simp [Entries.names, kindField, AlarmPolicy.toMembers]
    · rfl
    · rw [ofNode?, h]
      rfl
  · cases h

namespace Descriptor

theorem restores : Restores toValue ofNode? := by
  refine Restores.ofMembers (fun fs d hfs h => ?_) fun _ => by simp [Entries.names]
  simp only [Option.bind_eq_bind, Option.bind_eq_some_iff] at h
  obtain ⟨name, h₁, description, h₂, inputs, h₃, components, h₄, policies, h₅, h⟩ := h
  cases h
  exact .field (.required .text hfs h₁) <| .field (.optional .text hfs h₂) <|
    .field (.table InputDecl.restores hfs h₃) <| .field (.table Component.restores hfs h₄) <|
    .field (.list Policy.restores hfs h₅) .done

/-- A descriptor that was read from a JSON value is written as one, and reading that gives the same
descriptor. -/
theorem restored_of_read {v : Value} {d : Descriptor} (hv : v.Fits) (h : ofValue? v = some d) :
    d.toValue.Fits ∧ d.toValue.Ordered ∧ ofValue? d.toValue = some d := by
  obtain ⟨⟨hfits, hordered, hagain⟩, -⟩ := restores hv h
  exact ⟨hfits, hordered, hagain⟩

/-- A server whose flavor is an input and whose metadata only look like one, a volume that is
written as a list, and an alarm with a whole number for its threshold. -/
def motley : Value :=
  .object
    [("components", .object
        [("VDU1", .object
            [("capabilities", .object [("num_cpus", .int (Nat.pow 2 64 - 1))]),
             ("flavor", .object [("get_input", .string "flavor")]),
             ("image", .null),
             ("kind", .string "compute"),
             ("metadata", .object
                [("role", .object [("get_input", .string "x"), ("other", .int 1)])])]),
         ("VOL1", .list [.string "storage", .string "10 GB", .null, .string "VDU1"])]),
     ("inputs", .object [("flavor", .object [("default", .object [("disk", .int (-1))])])]),
     ("name", .string "web"),
     ("policies", .list
        [.object
          [("comparison_operator", .string "gt"), ("evaluation_periods", .int 1),
           ("kind", .string "alarm"), ("metadata", .string "VDU1"),
           ("meter_name", .string "cpu_util"), ("name", .string "A1"), ("period", .int 600),
           ("statistic", .string "avg"), ("threshold", .int 80)]])]

/-- What is read of it: the flavor is an input and the metadata are a mapping, the number that does
not fit is rounded, and what is left out is as by default. -/
def motleyRead : Descriptor where
  name := "web"
  description := none
  inputs := .ofList [("flavor", ⟨none, some (.object [("disk", .int (-1))])⟩)]
  components := .ofList
    [("VDU1", .compute { Compute.blank with
        capabilities := some { Capabilities.blank with
          numCpus := some (.float (Binary64.ofInt (Nat.pow 2 64 - 1))) }
        flavor := some (.input "flavor")
        metadata := .ofList [("role", .map [("get_input", .string "x"), ("other", .int 1)])] }),
     ("VOL1", .storage ⟨.string "10 GB", none, "VDU1", none⟩)]
  policies := [.alarm ⟨"A1", "VDU1", "cpu_util", "gt", 600, 1, "avg", Binary64.ofInt 80, []⟩]

theorem motley_restored : motley.Fits ∧ ofValue? motley = some motleyRead
    ∧ motleyRead.toValue.Fits ∧ motleyRead.toValue.Ordered
    ∧ ofValue? motleyRead.toValue = some motleyRead := by
  have hfits : motley.Fits := by
    simp +decide [motley, Value.fits_object, Value.fits_list, Value.fits_int, Value.Fits.null,
      Value.Fits.string]
  have hread : ofValue? motley = some motleyRead := rfl
  exact ⟨hfits, hread, restored_of_read hfits hread⟩

end Descriptor

end Provision
