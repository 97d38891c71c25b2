import Provision.Alarms
import Provision.Graph.Codec

/-!
# Deployment plans

The graph that a descriptor is deployed as, with scaling and alarms in it, and what has to be kept
beside the stack to drive it later.
-/

namespace Provision

/-- Everything that is needed to deploy. -/
structure Plan where
  graph : ResourceGraph
  monitoring : Monitoring
  /-- Every request to scale needs them. -/
  bindings : Bindings
  /-- The tag of every alarm. -/
  alarmTags : Table String

/-- Compiles a descriptor, then puts in the scaling group and the alarms. -/
def Descriptor.plan {m : Type → Type} [Monad m] (d : Descriptor) (settings : CompilerSettings)
    (parameters : Option Parameters) (catalog : Catalog m) (workloadId : String) :
    ExceptT Fault m Plan := do
  let compiled ← d.compile settings parameters catalog
  let scaling ← d.scaling
  let graph ← compiled.graph.withScaling scaling
  let alarms ← d.alarms graph workloadId
  return ⟨alarms.merged, compiled.monitoring, scaling.bindings, alarms.tags⟩

/-- What monitoring is told, in JSON. -/
def Monitoring.toValue (t : Monitoring) : Value := .ofTable (t.map fun _ ps => .ofTable ps)

end Provision
