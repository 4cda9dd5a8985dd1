import IngressControl.Text.Quoted

/-!
Everything that can go wrong, by cause. The wording of each cause is fixed by one function,
`Fault.message`.
-/

namespace IngressControl

inductive Kind
  | null
  | bool
  | int
  | float
  | string
  | array
  | object
deriving DecidableEq, Repr

def Kind.word : Kind → String
  | .null => "NoneType"
  | .bool => "bool"
  | .int => "int"
  | .float => "float"
  | .string => "str"
  | .array => "list"
  | .object => "dict"

inductive Collection
  | ingresses
  | services
  | nodes
deriving DecidableEq, Repr

def Collection.word : Collection → String
  | .ingresses => "ingresses"
  | .services => "services"
  | .nodes => "nodes"

/-- Where a text stopped being JSON, and why. Lines and columns count from one, the offset from
zero. -/
structure JsonFault where
  reason : String
  line : Nat
  column : Nat
  offset : Nat
deriving DecidableEq, Repr

def JsonFault.message (f : JsonFault) : String :=
  s!"{f.reason}: line {f.line} column {f.column} (char {f.offset})"

inductive Fault
  | clusterNameMissing
  | clusterNameTooLong (limit : Nat)
  | clusterNameHyphen
  | clientSettings (cause : JsonFault)
  | client (cause : Fault)
  | groupCount (count : Int)
  | callLimit (limit : Int)
  | noConcurrency
  | resourceKey (key : String)
  | wholeNumber (text : String)
  | tooManyDigits (digits : Nat)
  | decimalNumber (text : String)
  | eventType (literal : String)
  | unknownClient (name : String) (available : List String)
  | logLevel (text : String)
  | settingsPair (index length : Nat)
  | unableToList (collection : Collection) (cause : Fault)
  | loadBalancerListing (cause : Fault)
  | identityTags (loadBalancer : String)
  | description (loadBalancer field : String)
  | assembly (failed total : Nat) (first : Fault)
  | doublyTagged (first second ingress : String)
  | unmanaged (ingress : String)
  | unnamedIngress
  | ingressNamespace (name : String)
  | invalidIngress (violations : String)
  | scheme (value : String) (valid : List String)
  | noBackends
  | serviceMissing (key : String)
  | serviceType (key : String)
  | portMissing (port key : String)
  | tooManyTargets (count : Nat) (limit : String)
  | loadBalancerMissing (arn : String)
  | outage (reason : String)
  | noPosition
  | fileMissing (path : String)
  | notADirectory (path : String)
  | nameTooLong (path : String)
  | nullInPath
  | directory (path : String)
  | keyMissing (key : String)
  | noOperation (kind : Kind) (name : String)
  | noElements (kind : Kind)
  | noFields (kind : Kind)
  | notAKey (kind : Kind)
  | noOrder (relation : String) (left right : Kind)
  | notWhole (kind : Kind)
  | notDecimal (kind : Kind)
  | infiniteWhole
  | undefinedWhole
  | tooLarge
  | tooDeep (kind : Kind)
  | groupSize
  | settingsElement (index : Nat)
  | joinElement (index : Nat) (kind : Kind)
  | joinList
deriving DecidableEq, Repr

namespace Fault

def isSettings : Fault → Bool
  | clusterNameMissing => true
  | clusterNameTooLong _ => true
  | clusterNameHyphen => true
  | clientSettings _ => true
  | client _ => true
  | _ => false

def isValue : Fault → Bool
  | groupCount _ => true
  | callLimit _ => true
  | noConcurrency => true
  | resourceKey _ => true
  | wholeNumber _ => true
  | tooManyDigits _ => true
  | decimalNumber _ => true
  | eventType _ => true
  | unknownClient _ _ => true
  | logLevel _ => true
  | settingsPair _ _ => true
  | undefinedWhole => true
  | groupSize => true
  | nullInPath => true
  | _ => false

def quoteLimit : Nat := 200

def quoteStart (text : String) : String :=
  String.ofList ((Text.quoted text).toList.take quoteLimit)

def containerWord : Kind → String
  | .object => "object"
  | _ => "array"

def message : Fault → String
  | clusterNameMissing => "A cluster name must be defined (CLUSTER_NAME environment variable)"
  | clusterNameTooLong limit => s!"Cluster name must be {limit} characters or less"
  | clusterNameHyphen => "Cluster name cannot contain '-'"
  | clientSettings cause => "LB_CLIENT_CONFIG is not valid JSON: " ++ cause.message
  | client cause => cause.message
  | groupCount count => s!"group_count must be positive, got {count}"
  | callLimit limit => s!"max_per_call must be positive, got {limit}"
  | noConcurrency => "max_concurrent_reconciles must be positive"
  | resourceKey key => "Invalid resource key: " ++ Text.quoted key
  | wholeNumber text => "invalid literal for int() with base 10: " ++ quoteStart text
  | tooManyDigits digits =>
    "Exceeds the limit (4300 digits) for integer string conversion: value has " ++
      s!"{digits} digits; use sys.set_int_max_str_digits() to increase the limit"
  | decimalNumber text => "could not convert string to float: " ++ Text.quoted text
  | eventType literal => literal ++ " is not a valid EventType"
  | unknownClient name available =>
    let names := if available.isEmpty then "none" else ", ".intercalate available
    s!"Unknown load balancer client: {name}. Available clients: {names}"
  | logLevel text => "Unknown level: " ++ Text.quoted text
  | settingsPair index length =>
    s!"dictionary update sequence element #{index} has length {length}; 2 is required"
  | unableToList collection cause => s!"Unable to list {collection.word}: " ++ cause.message
  | loadBalancerListing cause => "Unable to list load balancers: " ++ cause.message
  | identityTags loadBalancer =>
    s!"Load balancer {loadBalancer} is missing the " ++
      "kubernetes.io/namespace or kubernetes.io/ingress-name tag"
  | description loadBalancer field =>
    s!"Load balancer {loadBalancer} description lacks " ++ Text.quoted field
  | assembly failed total first =>
    s!"{failed} of {total} load balancers could not be assembled: " ++ first.message
  | doublyTagged first second ingress =>
    s!"Load balancers {first} and {second} are both tagged for ingress {ingress}"
  | unmanaged ingress => "Unable to find ingress " ++ ingress
  | unnamedIngress => "Ingress has no metadata.name"
  | ingressNamespace name => s!"Ingress {name} has an invalid metadata.namespace"
  | invalidIngress violations => "Invalid ingress: " ++ violations
  | scheme value valid =>
    s!"Invalid scheme {Text.quoted value}, must be one of " ++ ", ".intercalate valid
  | noBackends => "Ingress does not reference any backend service"
  | serviceMissing key => s!"Unable to find the {key} service"
  | serviceType key => s!"{key} service is not of type NodePort"
  | portMissing port key => s!"Unable to find port {port} defined in the {key} service"
  | tooManyTargets count limit => s!"{count} targets exceeds the limit of {limit} per call"
  | loadBalancerMissing arn => Text.quoted s!"Load balancer {arn} not found"
  | outage reason => reason
  | noPosition => "list index out of range"
  | fileMissing path => "[Errno 2] No such file or directory: " ++ Text.quoted path
  | notADirectory path => "[Errno 20] Not a directory: " ++ Text.quoted path
  | nameTooLong path => "[Errno 36] File name too long: " ++ Text.quoted path
  | nullInPath => "embedded null byte"
  | directory path => "[Errno 21] Is a directory: " ++ Text.quoted path
  | keyMissing key => Text.quoted key
  | noOperation kind name => s!"'{kind.word}' object has no attribute '{name}'"
  | noElements kind => s!"'{kind.word}' object is not iterable"
  | noFields .string => "string indices must be integers, not 'str'"
  | noFields .array => "list indices must be integers or slices, not str"
  | noFields kind => s!"'{kind.word}' object is not subscriptable"
  | notAKey kind => s!"unhashable type: '{kind.word}'"
  | noOrder relation left right =>
    s!"'{relation}' not supported between instances of '{left.word}' and '{right.word}'"
  | notWhole kind =>
    "int() argument must be a string, a bytes-like object or a real number, not " ++
      s!"'{kind.word}'"
  | notDecimal kind => s!"float() argument must be a string or a real number, not '{kind.word}'"
  | infiniteWhole => "cannot convert float infinity to integer"
  | undefinedWhole => "cannot convert float NaN to integer"
  | tooLarge => "int too large to convert to float"
  | tooDeep kind =>
    s!"maximum recursion depth exceeded while decoding a JSON {containerWord kind} " ++
      "from a unicode string"
  | groupSize => "range() arg 3 must not be zero"
  | settingsElement index =>
    s!"cannot convert dictionary update sequence element #{index} to a sequence"
  | joinElement index kind => s!"sequence item {index}: expected str instance, {kind.word} found"
  | joinList => "can only join an iterable"

end Fault

end IngressControl
