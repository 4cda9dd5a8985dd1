import IngressControl.Document.Json.Reader
import IngressControl.Ingress
import IngressControl.Naming

/-!
Settings of the controller, read from the environment. What is not set has a default.
-/

namespace IngressControl

abbrev Environment := List (String × String)

namespace Environment

def text (env : Environment) (name byDefault : String) : String :=
  (Ledger.get? name env).getD byDefault

def whole (env : Environment) (name : String) (byDefault : Int) : Except Fault Int :=
  match Ledger.get? name env with
  | some value => Numeral.readWhole value
  | none => .ok byDefault

end Environment

structure Settings where
  clusterName : String
  ingressClass : String
  syncInterval : Int
  maxConcurrent : Int
  maxTargets : Int
  host : String
  port : Int
  logLevel : String
  declarationsFile : String
  client : String
  clientSettings : Document
deriving Repr

namespace Settings

/-- The settings of the client, which are written in JSON; none if the variable is empty. -/
def readClientSettings (env : Environment) : Except Fault Document :=
  let text := env.text "LB_CLIENT_CONFIG" ""
  if text.isEmpty then .ok (.object [])
  else match Json.read text with
    | .ok settings => .ok settings
    | .error failure => .error failure.toFault

/-- Reads the settings; the first faulty variable ends it. -/
def load (env : Environment) : Except Fault Settings := do
  return {
    clusterName := ← validateClusterName (env.text "CLUSTER_NAME" "")
    ingressClass := env.text "INGRESS_CLASS" Ingress.defaultClass
    syncInterval := ← env.whole "SYNC_INTERVAL" 30
    maxConcurrent := ← env.whole "MAX_CONCURRENT_RECONCILES" 10
    maxTargets := ← env.whole "MAX_TARGETS_PER_CALL" 20
    host := env.text "API_HOST" "0.0.0.0"
    port := ← env.whole "API_PORT" 8080
    logLevel := env.text "LOG_LEVEL" "INFO"
    clientSettings := ← readClientSettings env
    declarationsFile := env.text "DECLARATIONS_FILE" "declarations.yaml"
    client := env.text "LB_CLIENT" "memory" }

def view (s : Settings) : Document :=
  .object [
    ("cluster", .object [("cluster_name", .string s.clusterName),
      ("ingress_class", .string s.ingressClass)]),
    ("controller", .object [("sync_interval", .int s.syncInterval),
      ("max_concurrent_reconciles", .int s.maxConcurrent),
      ("max_targets_per_call", .int s.maxTargets)]),
    ("api", .object [("host", .string s.host), ("port", .int s.port),
      ("log_level", .string s.logLevel)]),
    ("source", .object [("declarations_file", .string s.declarationsFile),
      ("lb_client", .string s.client), ("client_config", s.clientSettings)])]

end Settings

structure SettingsCache where
  kept : Option Settings := none
deriving Repr

namespace SettingsCache

/-- The kept settings, or else those of the environment, which are kept if they can be read. -/
def load (cache : SettingsCache) (env : Environment) : Except Fault Settings × SettingsCache :=
  match cache.kept with
  | some settings => (.ok settings, cache)
  | none => match Settings.load env with
    | .ok settings => (.ok settings, { kept := some settings })
    | .error fault => (.error fault, cache)

end SettingsCache

end IngressControl
