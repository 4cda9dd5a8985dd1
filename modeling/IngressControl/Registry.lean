import IngressControl.Cloud.Basic
import IngressControl.Settings

/-!
The registry of load balancer clients. Clients are registered by name with the settings that they
start from; settings given when a client is made go before those.
-/

namespace IngressControl

def Defaults : Type := Environment → Except Fault Document

namespace Defaults

def fixed (settings : Document) : Defaults := fun _ => .ok settings

def environment : Defaults := fun env => do
  let region := env.text "AWS_REGION" "us-east-1"
  let limit ← env.whole "MAX_TARGETS_PER_CALL" 20
  return .object [("region", .string region), ("max_targets_per_call", .int limit)]

end Defaults

def Cloud.ofSettings (settings : Document) : Except Fault Cloud := do
  let (outcome, cloud) := ({} : Cloud).configure settings
  outcome
  return cloud

/-- A client that can be registered. One with a flaw cannot even be asked for its name. -/
structure ClientType where
  name : String
  defaults : Defaults := .environment
  flaw : Option Fault := none
  setUp : Document → Except Fault Cloud := Cloud.ofSettings

inductive Found
  | client (type : ClientType)
  | broken (reason : String)

def ClientType.builtIn : ClientType where
  name := "memory"

namespace SettingsTable

/-- One pair of a list of settings. A key that is no text names no setting. -/
def pairOf (index : Nat) (element : Document) : Except Fault (Option (String × Document)) :=
  match element.elements with
  | .error _ => .error (.settingsElement index)
  | .ok [key, value] => match key with
    | .string key => .ok (some (key, value))
    | .array _ => .error (.notAKey .array)
    | .object _ => .error (.notAKey .object)
    | _ => .ok none
  | .ok parts => .error (.settingsPair index parts.length)

def pairsFrom (index : Nat) : List Document → Except Fault (List (String × Document))
  | [] => .ok []
  | element :: rest => do
    let pair ← pairOf index element
    return pair.toList ++ (← pairsFrom (index + 1) rest)

/-- The settings in a document: the fields of an object, or the pairs in a list. -/
def ofDocument : Document → Except Fault (List (String × Document))
  | .object fields => .ok fields
  | d => do pairsFrom 0 (← d.elements)

/-- Settings of which the later ones go before the earlier ones. -/
def merge (base given : Document) : Except Fault Document := do
  let base ← ofDocument base
  let given ← ofDocument given.orEmpty
  return .object ((base ++ given).foldl (fun table entry => Ledger.put entry.1 entry.2 table) [])

end SettingsTable

@[ext]
structure Registry where
  clients : List (String × ClientType) := []
  settings : List (String × Document) := []

namespace Registry

def names (r : Registry) : List String := Ledger.keys r.clients

/-- Registers a client, in place of one of the same name. It is there even if its settings cannot be
read. -/
def register (r : Registry) (env : Environment) (client : ClientType) :
    Except Fault Unit × Registry :=
  match client.flaw with
  | some fault => (.error fault, r)
  | none =>
    let named := { r with clients := Ledger.put client.name client r.clients }
    match client.defaults env with
    | .ok settings =>
      (.ok (), { named with settings := Ledger.put client.name settings r.settings })
    | .error fault => (.error fault, named)

/-- Registers a client if it is usable; a failure is passed over. -/
def registerFound (env : Environment) (r : Registry) : Found → Registry
  | .client type => (r.register env type).2
  | .broken _ => r

def build (env : Environment) (found : List Found) : Except Fault Registry :=
  match ({} : Registry).register env ClientType.builtIn with
  | (.error fault, _) => .error fault
  | (.ok (), r) => .ok (found.foldl (registerFound env) r)

def create (r : Registry) (name : String) (given : Document) : Except Fault Cloud :=
  match Ledger.get? name r.clients with
  | none => .error (.unknownClient name (sortTexts r.names))
  | some client => do
    let base := (Ledger.get? name r.settings).getD (.object [])
    client.setUp (← SettingsTable.merge base given)

end Registry

end IngressControl
