import IngressControl.Discovery.Assembly
import IngressControl.Engine.Plan
import IngressControl.Engine.Reconcile
import IngressControl.Resource

/-!
The cycles of the engine. A cycle that cannot list its sources changes nothing but the statistics;
every other one reconciles its plan and commits the result.
-/

namespace IngressControl

/-- The outcome of a step of the engine: what it left behind, and the events in their order. -/
structure Cycle where
  outcome : Except Fault Unit
  engine : Engine
  cloud : Cloud
  events : List Event := []

namespace Engine

/-- Whether a resource is kept: it is tainted, wanted, or has a load balancer. -/
def isKept (r : Resource) : Bool := r.tainted || r.desired.isSome || r.handle.isSome

def finalCloud (cloud : Cloud) (done : List Reconciled) : Cloud :=
  match done.getLast? with
  | some last => last.cloud
  | none => cloud

def commit (engine : Engine) (now : Moment) (cloud : Cloud) (planned : ResourceSet) : Cycle :=
  let done := reconcileAll engine.context now cloud planned
  let kept := (done.map Reconciled.resource).filter isKept
  { outcome := .ok ()
    engine := { engine with
      resources := kept
      stats := { engine.stats with
        syncCount := engine.stats.syncCount + 1
        reconcileErrors := engine.stats.reconcileErrors + done.countP Reconciled.failed
        managedResources := kept.length
        lastSync := some now } }
    cloud := finalCloud cloud done
    events := planned.filterMap (taintEvent? now) ++ done.filterMap Reconciled.event }

def sync (engine : Engine) (sources : Sources) (now : Moment) (cloud : Cloud) : Cycle :=
  match plan engine.context sources engine.resources with
  | .ok planned => engine.commit now cloud planned
  | .error fault =>
    { outcome := .error fault
      engine := { engine with stats := { engine.stats with
        syncCount := engine.stats.syncCount + 1
        failedSyncs := engine.stats.failedSyncs + 1 } }
      cloud := cloud }

/-- Fills an empty set with the resources behind the load balancers of the cluster. -/
def bootstrap (engine : Engine) (cloud : Cloud) : Cycle :=
  if !engine.resources.isEmpty then { outcome := .ok (), engine := engine, cloud := cloud }
  else match Discovery.assemble cloud engine.context.clusterName with
    | (.error fault, cloud) => { outcome := .error fault, engine := engine, cloud := cloud }
    | (.ok found, cloud) =>
      { outcome := .ok ()
        engine := { engine with
          resources := found
          stats := { engine.stats with managedResources := found.length } }
        cloud := cloud }

def hostnames (engine : Engine) (id : Identity) : Except Fault (List Document) :=
  match engine.resources.find? (.ingress id) with
  | some r => .ok r.hostnames
  | none => .error (.unmanaged id.key)

def statusView (engine : Engine) : Document := .array (ResourceSet.snapshot engine.resources)

end Engine

end IngressControl
