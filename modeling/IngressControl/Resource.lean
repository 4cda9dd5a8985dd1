import IngressControl.Clock
import IngressControl.Digest
import IngressControl.Document.Basic
import IngressControl.Document.Equality
import IngressControl.Document.Order
import IngressControl.Naming

/-! Managed resources: for every ingress the load balancer that is wanted and the one that exists.
What is wanted is typed; what exists is as the cloud describes it, so its fields may hold any
values, and comparing the two may fail. The same goes for owners: a controller tags its load
balancers with the identities of ingresses, but tags that come from elsewhere may hold anything. -/

namespace IngressControl

/-- Whom a load balancer belongs to: an ingress, or whatever else its tags name. -/
inductive Owner
  | ingress (id : Identity)
  | other (ns name : Document)
deriving DecidableEq, Repr, Inhabited

namespace Owner

def ofTags : Document → Document → Owner
  | .string ns, .string name => ingress ⟨ns, name⟩
  | ns, name => other ns name

def ns : Owner → Document
  | ingress id => .string id.ns
  | other ns _ => ns

def name : Owner → Document
  | ingress id => .string id.name
  | other _ name => name

def same : Owner → Owner → Bool
  | ingress a, ingress b => decide (a = b)
  | other ns name, other ns' name' => ns.same ns' && name.same name'
  | _, _ => false

/-- The key: namespace, slash, name. -/
def key (owner : Owner) : String := owner.ns.display ++ "/" ++ owner.name.display

@[simp] theorem same_ingress (a b : Identity) : (ingress a).same (ingress b) = true ↔ a = b := by
  simp [same]

end Owner

structure Backend where
  serviceKey : String
  servicePort : Document
  nodePort : Int
deriving DecidableEq, Repr, Inhabited

structure DesiredSpec where
  scheme : String := "internet-facing"
  subnets : List String := []
  securityGroups : List String := []
  backends : List Backend := []
  instances : List Document := []
deriving DecidableEq, Repr, Inhabited

structure Handle where
  arn : String
  name : Document
  dnsName : Document := .string ""
  scheme : Document := .string "internet-facing"
  subnets : List Document := []
  securityGroups : List Document := []
  nodePorts : List Document := []
  instances : List Document := []
  tags : List (String × Document) := []
deriving DecidableEq, Repr, Inhabited

namespace Digest

def textOf : Document → Except Fault String
  | .string s => .ok s
  | d => .error (.noOperation d.kind "encode")

def ofValues (values : List Document) : Except Fault String := do
  return md5Hex ((← (← Document.sort values).mapM textOf).flatMap bytesOf)

end Digest

def Handle.securityGroupsHash (handle : Handle) : Except Fault String :=
  Digest.ofValues handle.securityGroups

def sortPorts (ports : List Int) : List Int := ports.mergeSort (fun a b => decide (a ≤ b))

namespace DesiredSpec

def nodePorts (spec : DesiredSpec) : List Int :=
  sortPorts (spec.backends.map Backend.nodePort).eraseDups

/-- Whether values are, in some order, the given ones, which are in order. -/
def holdsAll (wanted values : List Document) : Except Fault Bool :=
  (Document.sort values).map (Document.sameItems wanted)

/-- Whether the load balancer has to be modified: its scheme, its subnets, its security groups or
its ports differ from what is wanted. They are compared up to the first that differs. -/
def needsUpdate (spec : DesiredSpec) (handle : Handle) : Except Fault Bool := do
  if !(Document.string spec.scheme).same handle.scheme then
    return true
  if !(← holdsAll ((sortTexts spec.subnets).map .string) handle.subnets) then
    return true
  if Digest.ofCollection spec.securityGroups != (← handle.securityGroupsHash) then
    return true
  return !(← holdsAll (spec.nodePorts.map .int) handle.nodePorts)

end DesiredSpec

inductive Status
  | pending
  | discovered
  | created
  | modified
  | ready
  | deleting
  | deleted
  | failed
  | tainted
  | other (word : String)
deriving DecidableEq, Repr, Inhabited

namespace Status

def named : List (String × Status) :=
  [("pending", pending), ("discovered", discovered), ("created", created),
    ("modified", modified), ("ready", ready), ("deleting", deleting), ("deleted", deleted),
    ("failed", failed), ("tainted", tainted)]

def word : Status → String
  | pending => "pending"
  | discovered => "discovered"
  | created => "created"
  | modified => "modified"
  | ready => "ready"
  | deleting => "deleting"
  | deleted => "deleted"
  | failed => "failed"
  | tainted => "tainted"
  | other word => word

def ofWord (word : String) : Status := (named.lookup word).getD (other word)

end Status

/-- An ingress and its load balancer. Without a spec the ingress is gone, without a handle there is
no load balancer. A tainted resource is neither applied nor deleted. -/
structure Resource where
  owner : Owner
  desired : Option DesiredSpec := none
  handle : Option Handle := none
  tainted : Bool := false
  error : Option String := none
  status : Status := .pending
  lastReconciled : Option Moment := none
deriving DecidableEq, Repr, Inhabited

namespace Resource

def stripDesired (r : Resource) : Resource :=
  { r with desired := none, tainted := false, error := none, status := .deleting }

def hostnames (r : Resource) : List Document :=
  match r.handle with
  | some handle => if handle.dnsName.isVoid then [] else [handle.dnsName]
  | none => []

end Resource

abbrev ResourceSet := List Resource

namespace ResourceSet

def index? (set : ResourceSet) (owner : Owner) : Option Nat :=
  set.findIdx? (fun r => r.owner.same owner)

def find? (set : ResourceSet) (owner : Owner) : Option Resource :=
  List.find? (fun r => r.owner.same owner) set

def owners (set : ResourceSet) : List Owner := set.map Resource.owner

/-- The resource at a position; negative positions count from the end. -/
def at? (set : ResourceSet) (position : Int) : Except Fault Resource :=
  let index := if position < 0 then position + set.length else position
  if index < 0 then .error .noPosition
  else match set[index.toNat]? with
    | some r => .ok r
    | none => .error .noPosition

end ResourceSet

/-! Resources as documents, for status reports. -/

def textArray (texts : List String) : Document := .array (texts.map .string)

def textOrNull (text : Option String) : Document := (text.map Document.string).getD .null

def Identity.view (id : Identity) : Document :=
  .object [("namespace", .string id.ns), ("name", .string id.name)]

def Backend.view (b : Backend) : Document :=
  .object [("service_key", .string b.serviceKey), ("service_port", b.servicePort),
    ("node_port", .int b.nodePort)]

def DesiredSpec.view (spec : DesiredSpec) : Document :=
  .object [("scheme", .string spec.scheme), ("subnets", textArray spec.subnets),
    ("security_groups", textArray spec.securityGroups),
    ("backends", .array (spec.backends.map Backend.view)),
    ("instances", .array spec.instances)]

def Handle.view (handle : Handle) : Document :=
  .object [("arn", .string handle.arn), ("name", handle.name), ("dns_name", handle.dnsName),
    ("scheme", handle.scheme), ("subnets", .array handle.subnets),
    ("security_groups", .array handle.securityGroups),
    ("node_ports", .array handle.nodePorts), ("instances", .array handle.instances),
    ("tags", .object handle.tags)]

def Resource.view (r : Resource) : Document :=
  .object [("namespace", r.owner.ns), ("name", r.owner.name),
    ("tainted", .bool r.tainted), ("status", .string r.status.word),
    ("error", textOrNull r.error),
    ("desired", (r.desired.map DesiredSpec.view).getD .null),
    ("load_balancer", (r.handle.map Handle.view).getD .null),
    ("hostnames", .array r.hostnames),
    ("last_reconciled", (r.lastReconciled.map (fun m => .string m.withOffset)).getD .null)]

def ResourceSet.snapshot (set : ResourceSet) : List Document := set.map Resource.view

end IngressControl
