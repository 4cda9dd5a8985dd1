import IngressControl.Engine.Basic
import IngressControl.Source

/-!
The plan of a cycle: a resource for every ingress addressed to the engine, built from its first
occurrence, and after them the resources whose ingress is gone but whose load balancer still exists.
A resource whose wanted state cannot be built is tainted and keeps what it had.
-/

namespace IngressControl.Engine

def owner? (context : Context) (ingress : Document) : Option Identity :=
  if Ingress.hasClass ingress context.ingressClass then
    match Ingress.identity ingress with
    | .ok id => some id
    | .error _ => none
  else none

/-- The ingresses addressed to the engine, the first of each identity. -/
def owned (context : Context) (ingresses : List Document) : List (Identity × Document) :=
  ingresses.foldl (fun kept ingress =>
    match owner? context ingress with
    | some id => if kept.any (fun entry => decide (entry.1 = id)) then kept
        else kept ++ [(id, ingress)]
    | none => kept) []

def taintedResource (id : Identity) (existing : Option Resource) (fault : Fault) : Resource where
  owner := .ingress id
  desired := existing.bind Resource.desired
  handle := existing.bind Resource.handle
  tainted := true
  error := some fault.message
  status := .tainted
  lastReconciled := existing.bind Resource.lastReconciled

def plannedResource (id : Identity) (existing : Option Resource) (desired : DesiredSpec) :
    Resource where
  owner := .ingress id
  desired := some desired
  handle := existing.bind Resource.handle
  status := (existing.map Resource.status).getD .pending
  lastReconciled := existing.bind Resource.lastReconciled

/-- The resource of an ingress, which goes on from the previous one. -/
def resourceOf (services : Source) (instances : List Document) (previous : ResourceSet)
    (id : Identity) (ingress : Document) : Resource :=
  match Ingress.desiredSpec ingress (Service.nodePort services) instances with
  | .ok desired => plannedResource id (previous.find? (.ingress id)) desired
  | .error fault => taintedResource id (previous.find? (.ingress id)) fault

def declared (context : Context) (sources : Sources) (previous : ResourceSet) :
    Except Fault ResourceSet :=
  match sources.ingresses.list with
  | .error fault => .error (.unableToList .ingresses fault)
  | .ok ingresses =>
    match Node.listInstances sources.nodes with
    | .error fault => .error (.unableToList .nodes fault)
    | .ok instances =>
      .ok ((owned context ingresses).map (fun entry =>
        resourceOf sources.services instances previous entry.1 entry.2))

/-- Whether a previous resource is to be deleted: it is not tainted, its owner is not among those of
the declared ones, and it has a load balancer. -/
def isOrphan (declared : ResourceSet) (r : Resource) : Bool :=
  !r.tainted && (declared.find? r.owner).isNone && r.handle.isSome

def orphans (previous declared : ResourceSet) : ResourceSet :=
  (previous.filter (isOrphan declared)).map Resource.stripDesired

/-- All resources of a cycle in the order in which they are reconciled. -/
def plan (context : Context) (sources : Sources) (previous : ResourceSet) :
    Except Fault ResourceSet :=
  (declared context sources previous).map (fun set => set ++ orphans previous set)

def taintEvent? (now : Moment) (r : Resource) : Option Event :=
  if r.tainted then
    some (Event.ofMoment now .warning (.string "ERROR") r.owner (.string (r.error.getD "")))
  else none

end IngressControl.Engine
