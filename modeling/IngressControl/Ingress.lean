import IngressControl.Resource
import IngressControl.Schema.Check
import IngressControl.Text.Basic

/-!
Ingresses: whom they are addressed to, which ingress they are, where they route to, and the load
balancer that they ask for.
-/

namespace IngressControl.Ingress

def classAnnotation : String := "kubernetes.io/ingress.class"

def schemeAnnotation : String := "alb.ingress.kubernetes.io/scheme"

def subnetsAnnotation : String := "alb.ingress.kubernetes.io/subnets"

def securityGroupsAnnotation : String := "alb.ingress.kubernetes.io/security-groups"

def defaultClass : String := "alb"

def defaultNamespace : String := "default"

def defaultScheme : String := "internet-facing"

def validSchemes : List String := ["internet-facing", "internal"]

/-- The metadata of an ingress; none if they are no object. -/
def metadata : Document → List (String × Document)
  | .object fields => match Ledger.get? "metadata" fields with
    | some (.object entries) => entries
    | _ => []
  | _ => []

/-- The annotations of an ingress; none if they are no object. -/
def annotations (ingress : Document) : List (String × Document) :=
  match Ledger.get? "annotations" (metadata ingress) with
  | some (.object entries) => entries
  | _ => []

def hasClass (ingress : Document) (ingressClass : String) (byDefault : String := defaultClass) :
    Bool :=
  let annotated := (Ledger.get? classAnnotation (annotations ingress)).getD (.string "")
  if annotated.isVoid then ingressClass == byDefault
  else annotated.same (.string ingressClass)

/-- The identity of an ingress, in the default namespace if it names none. -/
def identity (ingress : Document) : Except Fault Identity :=
  let entries := metadata ingress
  match Ledger.get? "name" entries with
  | some (.string name) =>
    if name.isEmpty then .error .unnamedIngress
    else
      let ns := (Ledger.get? "namespace" entries).getD .null
      if ns.isVoid then .ok ⟨defaultNamespace, name⟩
      else match ns with
        | .string ns => .ok ⟨ns, name⟩
        | _ => .error (.ingressNamespace name)
  | _ => .error .unnamedIngress

structure Route where
  serviceKey : String
  servicePort : Document
deriving Repr, Inhabited

def Route.same (a b : Route) : Bool :=
  a.serviceKey == b.serviceKey && a.servicePort.same b.servicePort

def ruleBackends (rule : Document) : Except Fault (List Document) := do
  let http ← rule.field "http"
  let paths ← http.orEmpty.field "paths"
  (← paths.elementsOrNone).mapM (fun path => path.require "backend")

/-- The backends of an ingress: the default one first, then those of the rules. -/
def backends (ingress : Document) : Except Fault (List Document) := do
  let spec := (← ingress.field "spec").orEmpty
  let first ← spec.field "backend"
  let rules ← (← spec.field "rules").elementsOrNone
  let ofRules ← rules.mapM ruleBackends
  return (if first.isVoid then [] else [first]) ++ ofRules.flatten

def route (ns : String) (backend : Document) : Except Fault Route := do
  let service ← backend.require "serviceName"
  let port ← backend.require "servicePort"
  return ⟨ns ++ "/" ++ service.display, port⟩

def distinct (routes : List Route) : List Route :=
  (routes.foldl (fun kept r => if kept.any (fun k => k.same r) then kept else kept ++ [r]) [])

def routes (ingress : Document) : Except Fault (List Route) := do
  let id ← identity ingress
  let all ← (← backends ingress).mapM (route id.ns)
  return distinct all

def noted (ingress : Document) (name byDefault : String) : String :=
  ((Ledger.get? name (annotations ingress)).getD (.string byDefault)).display

/-- The load balancer that an ingress asks for. The resolver finds the node port behind a service
port. -/
def desiredSpec (ingress : Document) (resolve : String → Document → Except Fault Int)
    (instances : List Document) : Except Fault DesiredSpec := do
  if let some violations := Schema.ingressReport ingress then
    throw (.invalidIngress violations)
  let scheme := noted ingress schemeAnnotation defaultScheme
  if !validSchemes.contains scheme then
    throw (.scheme scheme validSchemes)
  let resolved ← (← routes ingress).mapM (fun r => do
    return ({ serviceKey := r.serviceKey, servicePort := r.servicePort,
              nodePort := ← resolve r.serviceKey r.servicePort } : Backend))
  if resolved.isEmpty then
    throw .noBackends
  return {
    scheme := scheme
    subnets := Text.Entries.parse (noted ingress subnetsAnnotation "")
    securityGroups := Text.Entries.parse (noted ingress securityGroupsAnnotation "")
    backends := resolved
    instances := instances }

end IngressControl.Ingress
