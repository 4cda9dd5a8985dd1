import IngressControl.Batch
import IngressControl.Cloud.Basic
import IngressControl.Event
import IngressControl.Ingress

/-!
The engine that keeps the load balancers of a cluster in step with its ingresses: its settings, its
statistics, and the set of resources that the last cycle committed.
-/

namespace IngressControl

structure Context where
  clusterName : String
  ingressClass : String := Ingress.defaultClass
  maxConcurrent : Int := 10
  maxTargets : Int := 20
deriving DecidableEq, Repr

/-- The cluster name has to be valid, and reconciliations have to be allowed to run. -/
def Context.check (context : Context) : Except Fault Unit := do
  let _ ← validateClusterName context.clusterName
  if context.maxConcurrent ≤ 0 then
    throw .noConcurrency

structure Stats where
  syncCount : Nat := 0
  failedSyncs : Nat := 0
  reconcileErrors : Nat := 0
  managedResources : Nat := 0
  lastSync : Option Moment := none
deriving DecidableEq, Repr, Inhabited

def Stats.view (stats : Stats) : Document :=
  .object [("sync_count", .int stats.syncCount), ("failed_syncs", .int stats.failedSyncs),
    ("reconcile_errors", .int stats.reconcileErrors),
    ("managed_resources", .int stats.managedResources),
    ("last_sync_time", (stats.lastSync.map (fun m => .string m.withOffset)).getD .null)]

structure Engine where
  context : Context
  resources : ResourceSet := []
  stats : Stats := {}
deriving Repr

def Engine.start (context : Context) (resources : ResourceSet) : Except Fault Engine := do
  context.check
  return { context := context, resources := resources }

end IngressControl
