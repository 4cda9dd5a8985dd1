import IngressControl.Engine.Targets

/-!
Reconciling one resource with the cloud. What went wrong is kept on the resource; it stops nothing
else.
-/

namespace IngressControl.Engine

/-- How far the calls for a resource came: the state that it reached or the fault that stopped it,
the handle that it is left with, and the name of its load balancer. -/
structure Applied where
  outcome : Except Fault Status
  handle : Option Handle
  name : Document
  cloud : Cloud

def attributes (spec : DesiredSpec) : Cloud.Attributes where
  scheme := .string spec.scheme
  subnets := spec.subnets.map .string
  securityGroups := spec.securityGroups.map .string
  nodePorts := spec.nodePorts.map .int

def tags (context : Context) (owner : Owner) : List (String × Document) :=
  [(clusterTag, .string context.clusterName), (namespaceTag, owner.ns), (ingressTag, owner.name)]

/-- Creates a load balancer and registers its targets. The handle is kept even if that fails. -/
def applyCreate (context : Context) (cloud : Cloud) (owner : Owner) (spec : DesiredSpec) :
    Applied :=
  let name := nameOfKey context.clusterName owner.key
  match cloud.create name (attributes spec) (tags context owner) with
  | (.error fault, cloud) => ⟨.error fault, none, .string name, cloud⟩
  | (.ok handle, cloud) =>
    let progress := alignTargets context.maxTargets cloud handle spec.instances
    ⟨progress.outcome.map (fun _ => .created), some progress.handle, handle.name, progress.cloud⟩

/-- Modifies a load balancer if it differs from its spec, and says whether it did. The instances of
the handle stay. -/
def applyAttributes (cloud : Cloud) (handle : Handle) (spec : DesiredSpec) :
    Reply (Handle × Bool) :=
  match spec.needsUpdate handle with
  | .error fault => (.error fault, cloud)
  | .ok false => (.ok (handle, false), cloud)
  | .ok true =>
    match cloud.update handle (attributes spec) with
    | (.error fault, cloud) => (.error fault, cloud)
    | (.ok updated, cloud) => (.ok ({ updated with instances := handle.instances }, true), cloud)

/-- Modifies a load balancer and its targets as far as they differ from its spec. -/
def applyUpdate (context : Context) (cloud : Cloud) (handle : Handle) (spec : DesiredSpec) :
    Applied :=
  match applyAttributes cloud handle spec with
  | (.error fault, cloud) => ⟨.error fault, some handle, handle.name, cloud⟩
  | (.ok (current, updated), cloud) =>
    let progress := alignTargets context.maxTargets cloud current spec.instances
    ⟨progress.outcome.map (fun aligned => if updated || aligned then .modified else .ready),
      some progress.handle, current.name, progress.cloud⟩

def applyDelete (cloud : Cloud) (handle : Handle) : Applied :=
  match cloud.delete handle with
  | (.error fault, cloud) => ⟨.error fault, some handle, handle.name, cloud⟩
  | (.ok (), cloud) => ⟨.ok .deleted, none, handle.name, cloud⟩

def apply (context : Context) (cloud : Cloud) (r : Resource) : Applied :=
  match r.desired, r.handle with
  | none, none => ⟨.ok r.status, none, .string "", cloud⟩
  | none, some handle => applyDelete cloud handle
  | some spec, none => applyCreate context cloud r.owner spec
  | some spec, some handle => applyUpdate context cloud handle spec

def reachedEvent? (now : Moment) (owner : Owner) (name : Document) : Status → Option Event
  | .created => some (Event.ofMoment now .normal (.string "CREATE") owner
      (.string (name.display ++ " created")))
  | .modified => some (Event.ofMoment now .normal (.string "MODIFY") owner
      (.string (name.display ++ " modified")))
  | .deleted => some (Event.ofMoment now .normal (.string "DELETE") owner
      (.string (name.display ++ " deleted")))
  | _ => none

structure Reconciled where
  resource : Resource
  event : Option Event
  cloud : Cloud

def Reconciled.failed (r : Reconciled) : Bool :=
  !r.resource.tainted && decide (r.resource.status = .failed)

/-- Reconciles a resource; a tainted one is left alone. -/
def reconcile (context : Context) (now : Moment) (cloud : Cloud) (r : Resource) : Reconciled :=
  if r.tainted then ⟨r, none, cloud⟩
  else
    let applied := apply context cloud r
    match applied.outcome with
    | .ok status =>
      ⟨{ r with handle := applied.handle, error := none, status := status,
                lastReconciled := some now },
        reachedEvent? now r.owner applied.name status, applied.cloud⟩
    | .error fault =>
      ⟨{ r with handle := applied.handle, error := some fault.message, status := .failed,
                lastReconciled := some now },
        some (Event.ofMoment now .warning (.string "ERROR") r.owner (.string fault.message)),
        applied.cloud⟩

def reconcileAll (context : Context) (now : Moment) : Cloud → List Resource → List Reconciled
  | _, [] => []
  | cloud, r :: rest =>
    let first := reconcile context now cloud r
    first :: reconcileAll context now first.cloud rest

end IngressControl.Engine
