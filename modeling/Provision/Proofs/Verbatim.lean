import Provision.Proofs.Conversion
import Provision.Proofs.Steering
import Provision.Proofs.Watching

/-!
# What alarms say of their policies

The alarm of a policy says what the policy says, and its actions call the signals of the scaling
policy that counts or the addresses that are given (`AlarmPolicy.declares_iff`). Two things stand
between the policies of a descriptor and its alarms: the policies are taken up by name, so that of
several with one name the last remains, and a period is a number of the template, which holds whole
ones up to the greatest of sixty-four bits with a sign. Otherwise nothing is lost
(`Descriptor.verbatim_iff`).
-/

namespace Provision

/-! ## One alarm -/

namespace AlarmPolicy

variable {a : AlarmPolicy} {honoured : Option ScalingPolicy} {action tag name : String}
  {g : ResourceGraph} {period : Value}

/-- What an action calls: the address of a signal of the scaling policy that it names, or the
address that it is itself; nothing if it is neither. -/
def called? (a : AlarmPolicy) (honoured : Option ScalingPolicy) (action : String) : Option Value :=
  if honoured.map ScalingPolicy.name = some action then
    let signal := if a.comparison = "gt" ∨ a.comparison = "ge" then "_scale_out" else "_scale_in"
    some (.single "get_attr" (.list [.string (action ++ signal), .string "alarm_url"]))
  else if "http://".toList <+: action.toList ∨ "https://".toList <+: action.toList then
    some (.string action)
  else none

/-- What a policy says, with the period in the given words. -/
def said (a : AlarmPolicy) (honoured : Option ScalingPolicy) (period : Value) :
    List (String × Value) :=
  [("meter_name", .string a.meterName), ("comparison_operator", .string a.comparison),
   ("period", period), ("evaluation_periods", .ofNat a.evaluationPeriods),
   ("statistic", .string a.statistic), ("threshold", .ofFloat a.threshold),
   ("alarm_actions", .list (a.actions.filterMap (a.called? honoured)))]

theorem signalName_ofComparison (policy comparison : String) :
    signalName policy (.ofComparison comparison) = policy
      ++ if comparison = "gt" ∨ comparison = "ge" then "_scale_out" else "_scale_in" := by
  rw [signalName, String.append_assoc, ScaleDirection.ofComparison]
  by_cases h : comparison = "gt" ∨ comparison = "ge"
  · rw [if_pos h, if_pos (by simpa using h)]
    rfl
  · rw [if_neg h, if_neg (by simpa using h)]
    rfl

theorem isAddress_iff : isAddress action = true ↔
    "http://".toList <+: action.toList ∨ "https://".toList <+: action.toList := by
  rw [isAddress, Bool.or_eq_true, List.isPrefixOf_iff_prefix, List.isPrefixOf_iff_prefix]

theorem toValue_action? :
    (a.action? honoured action).map Property.toValue = a.called? honoured action := by
  have hnamed : (honoured.any fun p => p.name == action) = true
      ↔ honoured.map ScalingPolicy.name = some action := by
    rcases honoured with _ | p
    · simp
    · simp
  unfold action? called?
  by_cases h : honoured.map ScalingPolicy.name = some action
  · rw [if_pos h, if_pos (hnamed.2 h), signalName_ofComparison]
    rfl
  rw [if_neg h, if_neg (mt hnamed.1 h)]
  by_cases haddress : isAddress action = true
  · rw [if_pos haddress, if_pos (isAddress_iff.1 haddress)]
    rfl
  · rw [if_neg haddress, if_neg (mt isAddress_iff.2 haddress)]
    rfl

theorem toItems_actions : Property.toItems (a.actions.filterMap (a.action? honoured))
    = a.actions.filterMap (a.called? honoured) := by
  rw [Property.toItems_eq_map, List.map_filterMap]
  simp only [toValue_action?]

/-- The alarm of a policy says what the policy says, in the words the template has for its
period. -/
theorem declares_iff (h : g.resource? name = some (a.alarm honoured tag)) :
    g.toTemplate.Declares name alarmType (a.said honoured period)
      ↔ period = (Property.ofInt a.period).toValue := by
  constructor
  · intro hd
    have hperiod : (a.alarm honoured tag).properties.get? "period"
        = some (Property.ofInt a.period) := by
      simp [alarm, Resource.set, Table.get?_put]
    have hsaid := hd.properties ("period", period) (by simp [said])
    rw [ResourceGraph.toTemplate_path? h, Resource.toTemplate_property hperiod] at hsaid
    exact (Option.some.inj hsaid).symm
  · rintro rfl
    refine ResourceGraph.declares_of_resource? h ?_
    simp [said, alarm, Resource.set, Table.get?_put, toItems_actions, Property.toValue, Value.ofNat]

end AlarmPolicy

/-! ## All of them -/

namespace Descriptor

variable {d : Descriptor} {base : ResourceGraph} {workloadId name : String}
  {s : AlarmSynthesis} {a : AlarmPolicy}

theorem size_alarmsByName :
    d.alarmsByName.size = (d.alarmPolicies.map AlarmPolicy.name).dedup.length := by
  rw [alarmsByName, Table.size_ofList, Entries.names, List.map_map]
  rfl

theorem alarmsByName_of_nodup (hn : (d.alarmPolicies.map AlarmPolicy.name).Nodup)
    (ha : a ∈ d.alarmPolicies) : d.alarmsByName.get? a.name = some a := by
  have hnames : (Entries.names (d.alarmPolicies.map fun a => (a.name, a))).Nodup := by
    rw [Entries.names, List.map_map]
    exact hn
  rw [← Table.mem_entries]
  exact (Entries.ofList_perm hnames).mem_iff.2 (List.mem_map.2 ⟨a, ha, rfl⟩)

/-- Each alarm policy has an alarm of its own, by its own name and with what the policy says, both
among the alarms alone and in the graph with them. -/
structure Verbatim (d : Descriptor) (s : AlarmSynthesis) : Prop where
  count : s.fragment.resources.size = d.alarmPolicies.length
  declared : ∀ a ∈ d.alarmPolicies, ∀ g ∈ [s.fragment, s.merged],
    g.toTemplate.Declares a.name alarmType
      (a.said d.scalingPolicies.head? (.ofNat a.period))

section

variable (h : d.alarms base workloadId = .ok s)
include h

theorem size_of_alarms : s.fragment.resources.size = d.alarmPolicies.length
    ↔ (d.alarmPolicies.map AlarmPolicy.name).Nodup := by
  rw [fragment_of_alarms h, Table.size_map, size_alarmsByName, ← length_dedup_eq_iff,
    List.length_map]

theorem verbatim_iff : d.Verbatim s ↔ (d.alarmPolicies.map AlarmPolicy.name).Nodup
    ∧ ∀ a ∈ d.alarmPolicies, (a.period : Int) ≤ Binary64.int64Max := by
  have hperiod (a : AlarmPolicy) : Value.ofNat a.period = (Property.ofInt a.period).toValue
      ↔ (a.period : Int) ≤ Binary64.int64Max := by
    rw [eq_comm, Value.ofNat, Property.toValue_ofInt_eq_iff, and_iff_right]
    exact (by decide : Binary64.int64Min ≤ 0).trans (Int.natCast_nonneg _)
  constructor
  · intro hv
    have hn := (size_of_alarms h).1 hv.count
    refine ⟨hn, fun a ha => (hperiod a).1 ?_⟩
    have hmerged := resource_of_alarms h (alarmsByName_of_nodup hn ha) s.merged (by simp)
    exact (AlarmPolicy.declares_iff hmerged).1 (hv.declared a ha s.merged (by simp))
  · rintro ⟨hn, hperiods⟩
    refine ⟨(size_of_alarms h).2 hn, fun a ha g hg => ?_⟩
    have hresource := resource_of_alarms h (alarmsByName_of_nodup hn ha) g hg
    exact (AlarmPolicy.declares_iff hresource).2 ((hperiod a).2 (hperiods a ha))

end

/-- For each name there is one alarm, and it says what the last policy of that name says, with its
period as the template has it. Each policy has its own alarm, word for word, if and only if no two
have one name and no period is beyond the whole numbers of a template. -/
theorem alarms_verbatim_iff (h : d.alarms base workloadId = .ok s) :
    (∀ name a, d.alarmsByName.get? name = some a → ∀ g ∈ [s.fragment, s.merged],
        g.toTemplate.Declares name alarmType
          (a.said d.scalingPolicies.head? (Property.ofInt a.period).toValue))
      ∧ s.fragment.resources.names = d.alarmsByName.names
      ∧ (d.Verbatim s ↔ (d.alarmPolicies.map AlarmPolicy.name).Nodup
        ∧ ∀ a ∈ d.alarmPolicies, (a.period : Int) ≤ Binary64.int64Max) := by
  refine ⟨fun name a ha g hg => ?_, ?_, verbatim_iff h⟩
  · exact (AlarmPolicy.declares_iff (resource_of_alarms h ha g hg)).2 rfl
  · rw [fragment_of_alarms h]
    exact List.map_map ..

/-- A policy for the only server. -/
def onlyScaling : ScalingPolicy := ⟨"SP1", ["VDU1"], 1, 3, 1, 1, 60⟩

/-- A server that scales, and alarms. -/
def scaledWith (alarms : List AlarmPolicy) : Descriptor :=
  { (named "w").withComponent "VDU1" (.compute .blank) with
    policies := .scaling onlyScaling :: alarms.map .alarm }

theorem alarmPolicies_scaledWith (alarms : List AlarmPolicy) :
    (scaledWith alarms).alarmPolicies = alarms := by
  rw [alarmPolicies, scaledWith, List.filterMap_cons, List.filterMap_map]
  exact List.filterMap_some

/-- The servers beside the group and the signals. -/
def scalingServers : ResourceGraph :=
  { onlyScaling.fragment with
    resources := exposingServers.resources.extend onlyScaling.fragment.resources }

/-- Two alarms that signal, one of them to an address too. -/
def signallingAlarms : List AlarmPolicy :=
  [{ loadAlarm "A1" "VDU1" with actions := ["SP1", "https://hooks.local/alarm", "pager"] },
   { loadAlarm "A2" "VDU1" with comparison := "lt", actions := ["SP1"] }]

theorem signallingAlarms_verbatim :
    ∃ s, (scaledWith signallingAlarms).alarms scalingServers "w" = .ok s
      ∧ (scaledWith signallingAlarms).Verbatim s := by
  obtain ⟨s, hs⟩ : ∃ s, (scaledWith signallingAlarms).alarms scalingServers "w" = .ok s :=
    exists_ok_of_toBool (by decide +kernel)
  refine ⟨s, hs, (alarms_verbatim_iff hs).2.2.2 ?_⟩
  rw [alarmPolicies_scaledWith]
  decide

/-- Two alarms of one name, for growth and for shrinkage. -/
def twinAlarms : List AlarmPolicy :=
  [loadAlarm "A1" "VDU1", { loadAlarm "A1" "VDU1" with comparison := "lt" }]

/-- An alarm over the longest period that can be given. -/
def longestAlarm : List AlarmPolicy := [{ loadAlarm "A1" "VDU1" with period := Nat.pow 2 64 - 1 }]

/-- One of the twins is left, and the longest period is no whole number any more. -/
theorem twinAlarms_lost :
    (∃ s, (scaledWith twinAlarms).alarms exposingServers "w" = .ok s
        ∧ s.fragment.resources.size = 1 ∧ ¬ (scaledWith twinAlarms).Verbatim s)
      ∧ ∃ s, (scaledWith longestAlarm).alarms exposingServers "w" = .ok s
        ∧ ¬ (scaledWith longestAlarm).Verbatim s := by
  refine ⟨?_, ?_⟩
  · obtain ⟨s, hs⟩ : ∃ s, (scaledWith twinAlarms).alarms exposingServers "w" = .ok s :=
      exists_ok_of_toBool (by decide +kernel)
    refine ⟨s, hs, ?_, fun hv => ?_⟩
    · rw [fragment_of_alarms hs, Table.size_map, size_alarmsByName, alarmPolicies_scaledWith]
      decide
    · have hn := ((verbatim_iff hs).1 hv).1
      rw [alarmPolicies_scaledWith] at hn
      exact absurd hn (by decide)
  · obtain ⟨s, hs⟩ : ∃ s, (scaledWith longestAlarm).alarms exposingServers "w" = .ok s :=
      exists_ok_of_toBool (by decide +kernel)
    refine ⟨s, hs, fun hv => ?_⟩
    have hperiods := ((verbatim_iff hs).1 hv).2
    rw [alarmPolicies_scaledWith] at hperiods
    exact absurd (hperiods _ List.mem_cons_self) (by decide)

end Descriptor

end Provision
