import IngressControl.Cloud.Basic
import IngressControl.Discovery.Basic

/-!
Assembling the resources of a cluster from the descriptions and targets of its load balancers. It is
all or nothing.
-/

namespace IngressControl.Discovery

/-- The resource behind a described load balancer with some targets. -/
def resourceOf (description arn : Document) (targets : List Document) : Except Fault Resource :=
  (Discovered.ofDescription description targets).map (fun d => d.resource arn.display)

/-- Looks up the targets of a described load balancer and reads its description. -/
def assembleOne (cloud : Cloud) (description : Document) : Reply Resource :=
  match description.require "LoadBalancerArn" with
  | .error fault => (.error fault, cloud)
  | .ok arn =>
    let (targets, cloud) := cloud.describe arn
    (targets.bind (resourceOf description arn), cloud)

/-- Assembles all descriptions in order, whether or not some of them fail. -/
def assembleAll (cloud : Cloud) : List Document → List (Except Fault Resource) × Cloud
  | [] => ([], cloud)
  | description :: rest =>
    let (first, cloud) := assembleOne cloud description
    let (others, cloud) := assembleAll cloud rest
    (first :: others, cloud)

def balancerName (r : Resource) : String := (r.handle.map (fun h => h.name.display)).getD ""

/-- Appends a resource, unless there is one of its owner. -/
def join (found : ResourceSet) (r : Resource) : Except Fault ResourceSet :=
  match found.find? r.owner with
  | some other => .error (.doublyTagged (balancerName other) (balancerName r) r.owner.key)
  | none => .ok (found ++ [r])

def faults (outcomes : List (Except Fault Resource)) : List Fault :=
  outcomes.filterMap (fun outcome => match outcome with
    | .error fault => some fault
    | .ok _ => none)

def successes (outcomes : List (Except Fault Resource)) : ResourceSet :=
  outcomes.filterMap (fun outcome => match outcome with
    | .ok r => some r
    | .error _ => none)

def conclude (outcomes : List (Except Fault Resource)) : Except Fault ResourceSet :=
  match faults outcomes with
  | first :: others => .error (.assembly (others.length + 1) outcomes.length first)
  | [] => (successes outcomes).foldlM join []

def assemble (cloud : Cloud) (cluster : String) : Reply ResourceSet :=
  match cloud.list cluster with
  | (.error fault, cloud) => (.error (.loadBalancerListing fault), cloud)
  | (.ok descriptions, cloud) =>
    let (outcomes, cloud) := assembleAll cloud descriptions
    (conclude outcomes, cloud)

end IngressControl.Discovery
