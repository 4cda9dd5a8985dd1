import IngressControl.Engine.Basic

/-! Bringing the targets of a load balancer in line with the wanted instances: first the missing
ones are registered, then the others are taken off, in batches within the limit per call. The handle
follows every successful call. -/

namespace IngressControl.Engine

def distinct (ds : List Document) : List Document :=
  ds.foldl (fun kept d => if d.isAmong kept then kept else kept ++ [d]) []

/-- The different documents of a list, all of which have to be able to be keys. -/
def setOf (ds : List Document) : Except Fault (List Document) :=
  (ds.mapM Document.asKey).map distinct

def sortedSet (ds : List Document) : Except Fault (List Document) := Document.sort (distinct ds)

def without (ds others : List Document) : List Document := ds.filter (fun d => !d.isAmong others)

/-- What brings the targets in line: the instances to register and those to take off. -/
structure Alignment where
  toAdd : List Document
  toRemove : List Document
deriving DecidableEq, Repr

def Alignment.isNothing (a : Alignment) : Bool := a.toAdd.isEmpty && a.toRemove.isEmpty

def alignment (current wanted : List Document) : Except Fault Alignment := do
  let current ← setOf current
  let wanted ← setOf wanted
  return { toAdd := ← Document.sort (without wanted current)
           toRemove := ← Document.sort (without current wanted) }

structure Progress (α : Type) where
  outcome : Except Fault α
  handle : Handle
  cloud : Cloud

/-- Makes one call for each batch up to the first that fails; the change says what a successful call
makes of the instances. -/
def callBatches (call : Cloud → Handle → List Document → Reply Unit)
    (change : List Document → List Document → List Document) :
    Cloud → Handle → List (List Document) → Progress Unit
  | cloud, handle, [] => ⟨.ok (), handle, cloud⟩
  | cloud, handle, batch :: rest =>
    match call cloud handle batch with
    | (.error fault, cloud) => ⟨.error fault, handle, cloud⟩
    | (.ok (), cloud) =>
      match sortedSet (change handle.instances batch) with
      | .error fault => ⟨.error fault, handle, cloud⟩
      | .ok instances => callBatches call change cloud { handle with instances := instances } rest

def callInBatches (call : Cloud → Handle → List Document → Reply Unit)
    (change : List Document → List Document → List Document) (limit : Int)
    (cloud : Cloud) (handle : Handle) (instances : List Document) : Progress Unit :=
  match groupsForLimit instances limit with
  | .error fault => ⟨.error fault, handle, cloud⟩
  | .ok batches => callBatches call change cloud handle batches

/-- Registers the missing instances and takes off the surplus ones. The outcome says whether there
were any. -/
def alignTargets (limit : Int) (cloud : Cloud) (handle : Handle) (wanted : List Document) :
    Progress Bool :=
  match alignment handle.instances wanted with
  | .error fault => ⟨.error fault, handle, cloud⟩
  | .ok a =>
    if a.isNothing then ⟨.ok false, handle, cloud⟩
    else
      let added := callInBatches Cloud.register (fun is batch => is ++ batch) limit cloud handle
        a.toAdd
      match added.outcome with
      | .error fault => ⟨.error fault, added.handle, added.cloud⟩
      | .ok () =>
        let removed := callInBatches Cloud.deregister without limit added.cloud added.handle
          a.toRemove
        ⟨removed.outcome.map (fun _ => true), removed.handle, removed.cloud⟩

end IngressControl.Engine
