import Provision.Compile

/-!
# Scaling

The first scaling policy of a descriptor turns its target servers into the members of a group. The
members and everything they own move into a template of their own; the group and the two policies
that signal it take their place.

What the targets own is the least set of resources that holds them and is closed under being
referred to from within, and under referring into it without being a server (`owned`).
-/

namespace Provision

/-- The type of groups. -/
def groupType : String := "OS::Heat::AutoScalingGroup"

/-- The type of policies that signal a group. -/
def signalPolicyType : String := "OS::Heat::ScalingPolicy"

/-- Whether a group is to grow or to shrink. -/
inductive ScaleDirection where
  | grow
  | shrink
  deriving DecidableEq

namespace ScaleDirection

/-- The word for the direction. -/
def word : ScaleDirection → String
  | .grow => "out"
  | .shrink => "in"

/-- The direction that a word names, in any case of letters. -/
def ofText? (text : String) : Option ScaleDirection :=
  let word := String.ofList (text.toList.map Char.toLower)
  if word = "out" then some .grow else if word = "in" then some .shrink else none

/-- What is said of a text that names no direction. -/
def unknown (text : String) : String :=
  "Unknown scale direction: " ++ String.ofList (text.toList.map Char.toLower)
    ++ " (expected out or in)"

/-- What an alarm with a comparison asks for: growth if the metric is too great. -/
def ofComparison (operator : String) : ScaleDirection :=
  if operator = "gt" || operator = "ge" then .grow else .shrink

/-- The sign of the change in size. -/
def sign : ScaleDirection → Int
  | .grow => 1
  | .shrink => -1

end ScaleDirection

/-- The name of the group of a policy. -/
def groupName (policy : String) : String := policy ++ "_group"

/-- The name of the resource that signals the group of a policy. -/
def signalName (policy : String) (direction : ScaleDirection) : String :=
  policy ++ "_scale_" ++ direction.word

/-- The name of the template of the members of the group of a policy. -/
def memberFile (policy : String) : String := policy ++ "_res.yaml"

/-- The group that each policy is bound to. -/
abbrev Bindings := Table String

/-- What a descriptor says about scaling: the policy that counts, its group, and the resources that
make it up. -/
structure ScalingSynthesis where
  policy : Option ScalingPolicy
  bindings : Bindings
  fragment : ResourceGraph

namespace ScalingPolicy

/-- What is wrong with the numbers of a policy, if anything is. -/
def flaw? (p : ScalingPolicy) : Option ScalingFault :=
  if p.greatest < p.least then some (.minExceedsMax p.least p.greatest)
  else if p.desired < p.least ∨ p.greatest < p.desired then
    some (.desiredOutside p.desired p.least p.greatest)
  else if p.increment = 0 then some .noIncrement
  else if p.targets.isEmpty then some .noTargets
  else none

/-- The group of the policy. -/
def group (p : ScalingPolicy) : Resource :=
  (Resource.new groupType).set "min_size" (.int p.least)
    |>.set "max_size" (.int p.greatest)
    |>.set "desired_capacity" (.int p.desired)
    |>.set "cooldown" (.int p.cooldown)
    |>.set "resource" (.single "type" (.string (memberFile p.name)))

/-- The resource that signals the group to grow or to shrink. -/
def signal (p : ScalingPolicy) (direction : ScaleDirection) : Resource :=
  (Resource.new signalPolicyType).set "adjustment_type" (.string "change_in_capacity")
    |>.set "scaling_adjustment" (.int (direction.sign * p.increment))
    |>.set "auto_scaling_group_id" (.resource (groupName p.name))
    |>.set "cooldown" (.int p.cooldown)

/-- The group and its two signals. -/
def fragment (p : ScalingPolicy) : ResourceGraph :=
  { ResourceGraph.empty with
    resources := .ofList
      [(groupName p.name, p.group),
       (signalName p.name .grow, p.signal .grow),
       (signalName p.name .shrink, p.signal .shrink)] }

end ScalingPolicy

/-- What a descriptor says about scaling, if its first scaling policy is sound. -/
def Descriptor.scaling (d : Descriptor) : Except Fault ScalingSynthesis :=
  match d.scalingPolicies with
  | [] => .ok ⟨none, .empty, .empty⟩
  | p :: _ =>
    match p.flaw? with
    | some f => .error (.invalidScalingPolicy p.name f)
    | none =>
      match p.targets.find? fun t => !d.hasCompute t with
      | some t => .error (.invalidScalingPolicy p.name (.targetNoCompute t))
      | none => .ok ⟨some p, Table.empty.put p.name (groupName p.name), p.fragment⟩

namespace ResourceGraph

/-- Every name that is a resource or is referred to, in order. -/
def mentioned (g : ResourceGraph) : List String :=
  (NameSet.ofNames (g.resources.names ++ g.resources.entries.flatMap fun e =>
    e.2.references.names)).names

/-- Whether some of the names refers to `name`. -/
def referredToBy (g : ResourceGraph) (names : List String) (name : String) : Bool :=
  names.any fun n => (g.targets n).contains name

/-- Whether `name` is a resource other than a server that refers to some of the names. -/
def attachedTo (g : ResourceGraph) (names : List String) (name : String) : Bool :=
  match g.resource? name with
  | some r => r.type != serverType && r.references.names.any fun n => names.contains n
  | none => false

/-- Whether the names pull `name` along with them. -/
def pulled (g : ResourceGraph) (names : List String) (name : String) : Bool :=
  g.referredToBy names name || g.attachedTo names name

/-- The names among `outside` that the names in `inside` pull along. -/
def gained (g : ResourceGraph) (inside outside : List String) : List String :=
  outside.filter (g.pulled inside)

/-- The names among `outside` that the names in `inside` do not pull along. -/
def spared (g : ResourceGraph) (inside outside : List String) : List String :=
  outside.filter fun n => !g.pulled inside n

/-- The names among `outside` that stay outside when the names in `inside` pull along what they can,
again and again. -/
def unpulled (g : ResourceGraph) (inside outside : List String) : List String :=
  if (g.spared inside outside).length < outside.length then
    unpulled g (inside ++ g.gained inside outside) (g.spared inside outside)
  else outside
termination_by outside.length

/-- The names that the targets own, in order: themselves and everything that is pulled along. -/
def owned (g : ResourceGraph) (targets : List String) : List String :=
  let outside := g.unpulled targets (g.mentioned.filter fun n => !targets.contains n)
  g.mentioned.filter fun n => !outside.contains n

/-- The first reference from outside to something owned: what, and from where. -/
def sharedReference? (g : ResourceGraph) (owned : List String) : Option (String × String) :=
  g.resources.entries.findSome? fun (name, r) =>
    if owned.contains name then none
    else (r.references.names.find? fun n => owned.contains n).map fun n => (n, name)

/-- The part of the graph that is owned, with the outputs that start from it. -/
def members (g : ResourceGraph) (owned : List String) : ResourceGraph :=
  { ResourceGraph.empty with
    resources := g.resources.filter fun name _ => owned.contains name
    outputs := g.outputs.filter fun _ o => owned.contains o.resource }

/-- The graph without the part that is owned. -/
def without (g : ResourceGraph) (owned : List String) : ResourceGraph :=
  { g with
    resources := g.resources.filter fun name _ => !owned.contains name
    outputs := g.outputs.filter fun _ o => !owned.contains o.resource }

/-- Moves the targets of the scaling policy and what they own into a template of their own, and
puts the group in their place. -/
def withScaling (g : ResourceGraph) (s : ScalingSynthesis) : Except Fault ResourceGraph :=
  match s.policy with
  | none => .ok g
  | some p =>
    match p.targets.find? fun t => !g.contains t with
    | some t => .error (.invalidScalingPolicy p.name (.targetNotInGraph t))
    | none =>
      let owned := g.owned p.targets
      match g.sharedReference? owned with
      | some (n, referrer) =>
        .error (.invalidGraph (.shared n (groupName p.name) referrer))
      | none => do
        let split := (g.without owned).addFile (memberFile p.name) (g.members owned)
        let merged ← (split.merged s.fragment).mapError Fault.invalidGraph
        merged.validate.mapError Fault.invalidGraph
        return merged

end ResourceGraph

end Provision
