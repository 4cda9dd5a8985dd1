import IngressControl.Document.Basic
import IngressControl.Document.Order
import IngressControl.Text.Basic

/-! Sources of cluster objects: objects in memory, the objects of one kind in a manifest, or a
source that is out of order. From the services node ports are looked up, and from the nodes the
instances behind them. -/

namespace IngressControl

/-- The key of an object: its namespace, a slash and its name, or the bare name. -/
def objectKey (object : Document) : Except Fault Document := do
  let metadata := (← object.field "metadata").orEmpty
  let name := (← metadata.field? "name").getD (.string "")
  let ns ← metadata.field "namespace"
  return if ns.isVoid then name else .string (ns.display ++ "/" ++ name.display)

inductive Source
  | objects (items : List Document)
  | manifest (kind : String) (contents : Except Fault (List Document))
  | broken (reason : String)
deriving Repr, Inhabited

namespace Source

/-- The objects of a kind in one document of a manifest; a list stands for its items. -/
def objectsOf (kind : String) (document : Document) : Except Fault (List Document) := do
  if document.isVoid then
    return []
  let isList := (← document.field "kind").same (.string "List")
  let items ← if isList then (← document.field "items").elementsOrNone else pure [document]
  items.filterM (fun item => return (← item.field "kind").same (.string kind))

def list : Source → Except Fault (List Document)
  | objects items => .ok items
  | manifest kind contents => do
    return (← (← contents).mapM (objectsOf kind)).flatten
  | broken reason => .error (.outage reason)

def firstWithKey (key : String) : List Document → Except Fault (Option Document)
  | [] => .ok none
  | object :: rest =>
    match objectKey object with
    | .error e => .error e
    | .ok found => if found.same (.string key) then .ok (some object) else firstWithKey key rest

def get? (source : Source) (key : String) : Except Fault (Option Document) := do
  firstWithKey key (← source.list)

end Source

structure Sources where
  ingresses : Source
  services : Source
  nodes : Source
deriving Repr, Inhabited

def Sources.ofManifest (contents : Except Fault (List Document)) : Sources :=
  ⟨.manifest "Ingress" contents, .manifest "Service" contents, .manifest "Node" contents⟩

end IngressControl

/-! Node ports of services. -/

namespace IngressControl.Service

def nodePortType : String := "NodePort"

/-- Whether a port of a service has the number or the name that is asked for. -/
def portMatches (target port : Document) : Except Fault Bool := do
  let number ← port.field "port"
  let name ← port.field "name"
  return number.same target || name.same target

def firstNodePort (target : Document) : List Document → Except Fault (Option Int)
  | [] => .ok none
  | port :: rest => do
    if ← portMatches target port then
      match ← port.field "nodePort" with
      | .null => firstNodePort target rest
      | found => return some (← found.toWhole)
    else firstNodePort target rest

/-- The port of the nodes on which a service exposes one of its ports. -/
def nodePort (services : Source) (key : String) (target : Document) : Except Fault Int := do
  let some service ← services.get? key | throw (.serviceMissing key)
  let spec := (← service.field "spec").orEmpty
  if !(← spec.field "type").same (.string nodePortType) then
    throw (.serviceType key)
  match ← firstNodePort target (← (← spec.field "ports").elementsOrNone) with
  | some port => return port
  | none => throw (.portMissing target.display key)

end IngressControl.Service

/-! Instances behind the nodes of a cluster. -/

namespace IngressControl.Node

def lastSegment (path : String) : String :=
  let kept := Text.dropEndWhile (· == '/') path.toList
  String.ofList (kept.reverse.takeWhile (· != '/')).reverse

/-- The instance of a node: its external name, or else the last segment of its provider's path;
void if it has neither. -/
def instanceOf (node : Document) : Except Fault Document := do
  let spec := (← node.field "spec").orEmpty
  let external ← spec.field "externalID"
  if !external.isVoid then
    return external
  let provider ← spec.field "providerID"
  if provider.isVoid then
    return external
  match provider with
  | .string path => return .string (lastSegment path)
  | other => throw (.noOperation other.kind "rstrip")

/-- The instance of a node as a list of at most one. A node without an instance is passed over,
after its name has been looked up. -/
def instances (node : Document) : Except Fault (List Document) := do
  let found ← instanceOf node
  if !found.isVoid then
    return [found]
  let metadata := (← node.field? "metadata").getD (.object [])
  let _ ← metadata.field "name"
  return []

def listInstances (nodes : Source) : Except Fault (List Document) := do
  let found ← (← nodes.list).mapM instances
  Document.sort found.flatten

end IngressControl.Node
