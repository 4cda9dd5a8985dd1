import IngressControl.Document.Basic
import IngressControl.Document.Json.Writer
import IngressControl.Naming
import IngressControl.Resource

/-!
Load balancers that were found: the ingress that the tags name, and the values of the description as
they stand there.
-/

namespace IngressControl.Discovery

abbrev Tags := List (Document × Document)

namespace Tags

/-- Writes a tag: in place if the key is there, at the end otherwise. -/
def put (key value : Document) : Tags → Tags
  | [] => [(key, value)]
  | (k, v) :: rest => if k.same key then (k, value) :: rest else (k, v) :: put key value rest

/-- The value of a tag; null without it. -/
def value (tags : Tags) (key : String) : Document :=
  ((tags.find? (fun tag => tag.1.same (.string key))).map Prod.snd).getD .null

/-- The key and the value of a tag; arrays and objects are no keys. -/
def entry (tag : Document) : Except Fault (Document × Document) := do
  let key ← tag.require "Key"
  let value ← tag.require "Value"
  return (← key.asKey, value)

def ofDescription (description : Document) : Except Fault Tags := do
  let written ← ((← description.field? "Tags").getD (.array [])).elementsOrNone
  return (← written.mapM entry).foldl (fun tags tag => put tag.1 tag.2 tags) []

def keyText : Document → String
  | .string s => s
  | key => Json.write key

def named (tags : Tags) : List (String × Document) := tags.map (fun tag => (keyText tag.1, tag.2))

end Tags

end Discovery

structure Discovered where
  owner : Owner
  arn : Document
  balancer : Document
  dnsName : Document
  scheme : Document
  subnets : List Document
  securityGroups : List Document
  nodePorts : List Document
  instances : List Document
  tags : List (String × Document)

namespace Discovered

/-- The elements of a field; none if it is missing. -/
def elementsOf (description : Document) (field : String) : Except Fault (List Document) := do
  ((← description.field? field).getD (.array [])).elements

def fieldOf (description : Document) (label field : String) : Except Fault Document := do
  match ← description.field? field with
  | some value => return value
  | none => throw (.description label field)

def ofDescription (description : Document) (instances : List Document) :
    Except Fault Discovered := do
  let tags ← Discovery.Tags.ofDescription description
  let label := ((← description.field? "LoadBalancerName").getD (.string "<unknown>")).display
  let ns := tags.value namespaceTag
  let name := tags.value ingressTag
  if ns.isVoid || name.isVoid then
    throw (.identityTags label)
  return {
    owner := .ofTags ns name
    arn := ← fieldOf description label "LoadBalancerArn"
    balancer := ← fieldOf description label "LoadBalancerName"
    dnsName := (← description.field? "DNSName").getD (.string "")
    scheme := (← description.field? "Scheme").getD (.string "internet-facing")
    subnets := ← elementsOf description "Subnets"
    securityGroups := ← elementsOf description "SecurityGroups"
    nodePorts := ← elementsOf description "NodePorts"
    instances := ← Document.sort instances
    tags := tags.named }

/-- The resource of a load balancer that is known under a name within the service: nothing is wanted
of it yet. -/
def resource (d : Discovered) (arn : String) : Resource where
  owner := d.owner
  handle := some {
    arn := arn
    name := d.balancer
    dnsName := d.dnsName
    scheme := d.scheme
    subnets := d.subnets
    securityGroups := d.securityGroups
    nodePorts := d.nodePorts
    instances := d.instances
    tags := d.tags }
  status := .discovered

def view (d : Discovered) : Document :=
  .object [("namespace", d.owner.ns), ("name", d.owner.name), ("tainted", .bool false),
    ("status", .string Status.discovered.word), ("error", .null), ("desired", .null),
    ("load_balancer", .object [("arn", d.arn), ("name", d.balancer), ("dns_name", d.dnsName),
      ("scheme", d.scheme), ("subnets", .array d.subnets),
      ("security_groups", .array d.securityGroups), ("node_ports", .array d.nodePorts),
      ("instances", .array d.instances), ("tags", .object d.tags)]),
    ("hostnames", .array (if d.dnsName.isVoid then [] else [d.dnsName])),
    ("last_reconciled", .null)]

end Discovered

end IngressControl
