import IngressControl.Digest
import IngressControl.Fault

/-! The identities of ingresses with their keys, a namespace and a name with a slash between them,
and the names of clusters and load balancers. A load balancer is named by its cluster, a hyphen and
the beginning of a digest of the key of its ingress. -/

namespace IngressControl

structure Identity where
  ns : String
  name : String
deriving DecidableEq, Repr, Inhabited

namespace Identity

/-- The key: namespace, slash, name. -/
def key (id : Identity) : String := id.ns ++ "/" ++ id.name

/-- Reads a key at its first slash; neither part may be empty. -/
def ofKey (key : String) : Except Fault Identity :=
  let ns := key.toList.takeWhile (· != '/')
  match key.toList.dropWhile (· != '/') with
  | '/' :: name =>
    if ns.isEmpty || name.isEmpty then .error (.resourceKey key)
    else .ok ⟨String.ofList ns, String.ofList name⟩
  | _ => .error (.resourceKey key)

end Identity

def clusterTag : String := "kubernetes.io/cluster-name"

def namespaceTag : String := "kubernetes.io/namespace"

def ingressTag : String := "kubernetes.io/ingress-name"

def maxClusterName : Nat := 11

def maxLoadBalancerName : Nat := 32

def nameDigits : Nat := 20

/-- A cluster name is not empty, not too long, and free of hyphens. -/
def validateClusterName (name : String) : Except Fault String :=
  if name.isEmpty then .error .clusterNameMissing
  else if maxClusterName < name.length then .error (.clusterNameTooLong maxClusterName)
  else if name.toList.contains '-' then .error .clusterNameHyphen
  else .ok name

def nameOfKey (cluster key : String) : String :=
  let digest := (Digest.md5Hex (Digest.bytesOf key)).toList.take nameDigits
  String.ofList ((cluster.toList ++ '-' :: digest).take maxLoadBalancerName)

def loadBalancerName (cluster : String) (id : Identity) : String := nameOfKey cluster id.key

end IngressControl
