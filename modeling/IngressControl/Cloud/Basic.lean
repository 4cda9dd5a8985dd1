import IngressControl.Document.Basic
import IngressControl.Naming
import IngressControl.Resource

/-!
The cloud: load balancers and their targets, the calls that were made, and the outages that make
calls fail. A call that fails through an outage is recorded and changes nothing else.
-/

namespace IngressControl

inductive Operation
  | create
  | update
  | delete
  | register
  | deregister
  | describe
  | list
deriving DecidableEq, Repr

namespace Operation

def word : Operation → String
  | create => "create"
  | update => "update"
  | delete => "delete"
  | register => "register_targets"
  | deregister => "deregister_targets"
  | describe => "describe_targets"
  | list => "list"

def ofWord? (word : String) : Option Operation :=
  [create, update, delete, register, deregister, describe, list].find? (fun op => op.word == word)

end Operation

structure Call where
  operation : Operation
  target : Document
deriving DecidableEq, Repr

/-- Calls that fail: of those that match, some pass first and the next ones fail. -/
structure Outage where
  operation : Operation
  target : Option Document := none
  reason : String
  after : Nat := 0
  times : Nat := 1
deriving DecidableEq, Repr

namespace Outage

def applies (o : Outage) (call : Call) : Bool :=
  o.operation == call.operation && (match o.target with
    | some target => target.same call.target
    | none => true)

/-- Shows a call to the outages in order. Each one that applies counts it; the first one that is
due makes it fail, and those after that one do not see it. -/
def meet (call : Call) : List Outage → Option String × List Outage
  | [] => (none, [])
  | o :: rest =>
    if !o.applies call then
      let (reason, rest) := meet call rest
      (reason, o :: rest)
    else if 0 < o.after then
      let (reason, rest) := meet call rest
      (reason, { o with after := o.after - 1 } :: rest)
    else if 0 < o.times then (some o.reason, { o with times := o.times - 1 } :: rest)
    else
      let (reason, rest) := meet call rest
      (reason, o :: rest)

end Outage

/-- The state of the load balancer service. The settings are kept as they were given. -/
structure Cloud where
  region : Document := .string "us-east-1"
  limit : Document := .int 20
  latency : Numeral.Double := ⟨false, 0⟩
  balancers : List (String × Handle) := []
  targets : List (String × List Document) := []
  created : Nat := 0
  calls : List Call := []
  outages : List Outage := []
  listing : Option (List Document) := none
deriving Repr, Inhabited

abbrev Reply (α : Type) := Except Fault α × Cloud

namespace Cloud

/-- Records a call and, unless an outage makes it fail, carries it out. -/
def perform {α : Type} (cloud : Cloud) (operation : Operation) (target : Document)
    (act : Cloud → Reply α) : Reply α :=
  let call : Call := ⟨operation, target⟩
  let (reason, outages) := Outage.meet call cloud.outages
  let cloud := { cloud with calls := cloud.calls ++ [call], outages := outages }
  match reason with
  | some reason => (.error (.outage reason), cloud)
  | none => act cloud

/-- Takes over settings one after the other; those before a faulty one stay. -/
def configure (cloud : Cloud) (settings : Document) : Reply Unit :=
  match settings with
  | .object fields =>
    let cloud := { cloud with
      region := (Ledger.get? "region" fields).getD (.string "us-east-1")
      limit := (Ledger.get? "max_targets_per_call" fields).getD (.int 20) }
    match ((Ledger.get? "latency" fields).getD (.float ⟨false, 0⟩)).toDecimal with
    | .ok latency => (.ok (), { cloud with latency := latency })
    | .error fault => (.error fault, cloud)
  | other => (.error (.noOperation other.kind "get"), cloud)

def exceedsLimit (cloud : Cloud) (count : Nat) : Except Fault Bool :=
  match cloud.limit.quantity? with
  | some limit => .ok (limit.less (.ofInt count))
  | none => .error (.noOrder ">" .int cloud.limit.kind)

def withinLimit (cloud : Cloud) (instances : List Document) (act : Cloud → Reply Unit) :
    Reply Unit :=
  match cloud.exceedsLimit instances.length with
  | .error fault => (.error fault, cloud)
  | .ok true => (.error (.tooManyTargets instances.length cloud.limit.display), cloud)
  | .ok false => act cloud

def add (cloud : Cloud) (handle : Handle) (instances : List Document) : Cloud :=
  { cloud with
    balancers := Ledger.put handle.arn handle cloud.balancers
    targets := Ledger.put handle.arn instances cloud.targets }

def arn (region : Document) (name : String) (n : Nat) : String :=
  "arn:aws:elasticloadbalancing:" ++ region.display ++ ":000000000000:loadbalancer/app/" ++ name ++
    "/" ++ String.ofList (Text.hexDigits 16 n)

structure Attributes where
  scheme : Document
  subnets : List Document
  securityGroups : List Document
  nodePorts : List Document
deriving DecidableEq, Repr

def Attributes.change (attributes : Attributes) (handle : Handle) : Handle :=
  { handle with
    scheme := attributes.scheme
    subnets := attributes.subnets
    securityGroups := attributes.securityGroups
    nodePorts := attributes.nodePorts }

def create (cloud : Cloud) (name : String) (attributes : Attributes)
    (tags : List (String × Document)) : Reply Handle :=
  cloud.perform .create (.string name) fun cloud =>
    let handle : Handle := attributes.change {
      arn := arn cloud.region name (cloud.created + 1)
      name := .string name
      dnsName := .string (name ++ "." ++ cloud.region.display ++ ".elb.amazonaws.com")
      tags := tags }
    (.ok handle, { cloud with created := cloud.created + 1 }.add handle [])

def update (cloud : Cloud) (handle : Handle) (attributes : Attributes) : Reply Handle :=
  cloud.perform .update handle.name fun cloud =>
    match Ledger.get? handle.arn cloud.balancers with
    | none => (.error (.loadBalancerMissing handle.arn), cloud)
    | some stored =>
      let updated := attributes.change stored
      (.ok updated,
        { cloud with balancers := Ledger.put handle.arn updated cloud.balancers })

def delete (cloud : Cloud) (handle : Handle) : Reply Unit :=
  cloud.perform .delete handle.name fun cloud =>
    (.ok (), { cloud with
      balancers := Ledger.erase handle.arn cloud.balancers
      targets := Ledger.erase handle.arn cloud.targets })

/-- Targets with further instances, each once. -/
def join (targets instances : List Document) : List Document :=
  instances.foldl (fun ts i => if i.isAmong ts then ts else ts ++ [i]) targets

def leave (targets instances : List Document) : List Document :=
  targets.filter (fun t => !t.isAmong instances)

def register (cloud : Cloud) (handle : Handle) (instances : List Document) : Reply Unit :=
  cloud.perform .register handle.name fun cloud =>
    cloud.withinLimit instances fun cloud =>
      let before := (Ledger.get? handle.arn cloud.targets).getD []
      (.ok (), { cloud with
        targets := Ledger.put handle.arn (join before instances) cloud.targets })

def deregister (cloud : Cloud) (handle : Handle) (instances : List Document) : Reply Unit :=
  cloud.perform .deregister handle.name fun cloud =>
    cloud.withinLimit instances fun cloud =>
      let before := (Ledger.get? handle.arn cloud.targets).getD []
      (.ok (), { cloud with
        targets := Ledger.put handle.arn (leave before instances) cloud.targets })

/-- The targets under a name within the service. Only a text can name a load balancer that exists.
-/
def targetsOf (cloud : Cloud) (arn : Document) : Except Fault (List Document) := do
  let _ ← arn.asKey
  match (arn.text?).bind (fun arn => Ledger.get? arn cloud.targets) with
  | some targets => Document.sort targets
  | none => throw (.loadBalancerMissing arn.display)

def describe (cloud : Cloud) (arn : Document) : Reply (List Document) :=
  cloud.perform .describe arn fun cloud => (cloud.targetsOf arn, cloud)

def description (handle : Handle) : Document :=
  .object [("LoadBalancerArn", .string handle.arn), ("LoadBalancerName", handle.name),
    ("DNSName", handle.dnsName), ("Scheme", handle.scheme), ("Subnets", .array handle.subnets),
    ("SecurityGroups", .array handle.securityGroups), ("NodePorts", .array handle.nodePorts),
    ("Tags", .array (handle.tags.map (fun tag =>
      .object [("Key", .string tag.1), ("Value", tag.2)])))]

def belongsTo (cluster : String) (handle : Handle) : Bool :=
  ((Ledger.get? clusterTag handle.tags).getD .null).same (.string cluster)

def ofCluster (cloud : Cloud) (cluster : String) : List Handle :=
  (cloud.balancers.map Prod.snd).filter (belongsTo cluster)

/-- The descriptions of the load balancers of a cluster, or those that are set to be listed. -/
def list (cloud : Cloud) (cluster : String) : Reply (List Document) :=
  cloud.perform .list (.string cluster) fun cloud =>
    (.ok (cloud.listing.getD ((cloud.ofCluster cluster).map description)), cloud)

def named (cloud : Cloud) (name : Document) : List String :=
  (cloud.balancers.filter (fun entry => entry.2.name.same name)).map Prod.fst

def vanish (cloud : Cloud) (name : Document) : Cloud :=
  let gone := cloud.named name
  { cloud with
    balancers := cloud.balancers.filter (fun entry => !gone.contains entry.1)
    targets := cloud.targets.filter (fun entry => !gone.contains entry.1) }

def vanishTargets (cloud : Cloud) (name : Document) : Cloud :=
  let gone := cloud.named name
  { cloud with targets := cloud.targets.filter (fun entry => !gone.contains entry.1) }

end Cloud

end IngressControl
