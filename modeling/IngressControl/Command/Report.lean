import IngressControl.Command.Basic
import IngressControl.Document.Json.Reader
import IngressControl.Document.Json.Writer
import IngressControl.Document.Yaml.Writer
import IngressControl.Folder
import IngressControl.Schema.Check
import IngressControl.Table.Grid

/-!
What the tool shows: the answers of the status service, and the verdict on the ingresses of a
manifest.
-/

namespace IngressControl.Command

def stateHeaders : List String :=
  ["Namespace", "Name", "Status", "Tainted", "Load Balancer", "Hostname"]

def joinTexts (d : Document) : Except Fault String := do
  let items ← match d.elements with
    | .ok items => pure items
    | .error _ => throw .joinList
  let texts ← items.zipIdx.mapM (fun (item, i) => match item with
    | .string s => .ok s
    | other => .error (.joinElement i other.kind))
  return ", ".intercalate texts

def stateRow (resource : Document) : Except Fault (List Document) := do
  let balancer := (← resource.field "load_balancer").orEmpty
  let ns ← resource.require "namespace"
  let name ← resource.require "name"
  let status ← resource.require "status"
  let tainted ← resource.require "tainted"
  let balancerName := (← balancer.field? "name").getD (.string "<none>")
  let hostnames ← joinTexts ((← resource.field? "hostnames").getD (.array []))
  return [ns, name, status, .string (if tainted.isVoid then "" else "yes"), balancerName,
    .string hostnames]

def Outcome.ofText : Except Fault String → Outcome
  | .ok text => { output := text }
  | .error fault => { ending := .error fault }

def Outcome.after (text : String) (outcome : Outcome) : Outcome :=
  { outcome with output := text ++ outcome.output }

def stateRows (answer resources : Document) : Except Fault (String × List (List Document)) := do
  let rows ← (← resources.elements).mapM stateRow
  let cluster ← answer.field "cluster_name"
  return (s!"Cluster: {cluster.display}\n", rows)

def tableOutcome (answer resources : Document) : Outcome :=
  match stateRows answer resources with
  | .error fault => { ending := .error fault }
  | .ok (title, rows) =>
    (Outcome.ofText ((Table.grid stateHeaders rows).map (· ++ "\n"))).after title

def stateOutcome (format : Format) (answer : Document) : Outcome :=
  match answer.field? "resources" with
  | .error fault => { ending := .error fault }
  | .ok found =>
    let resources := found.getD (.array [])
    match format with
    | .json => { output := Json.writeIndented 2 resources ++ "\n" }
    | .yaml => { output := Yaml.write resources ++ "\n" }
    | .table => tableOutcome answer resources

/-- A line; null is an empty one. -/
def lineOf : Document → String
  | .null => "\n"
  | d => d.display ++ "\n"

def hostnamesOutcome (answer : Document) : Outcome :=
  match answer.require "hostnames" with
  | .error fault => { ending := .error fault }
  | .ok names =>
    let head := if names.isVoid then "No hostnames assigned yet\n" else ""
    match names.elements with
    | .error fault => { output := head, ending := .error fault }
    | .ok items => { output := head ++ String.join (items.map lineOf) }

def syncText (answer : Document) : Except Fault String := do
  let status ← answer.require "status"
  let managed ← answer.require "managed_resources"
  return s!"Sync {status.display}, managing {managed.display}\n"

def ingressesOf (documents : List Document) : Except Fault (List Document) :=
  (documents.filter (fun d => !d.isVoid)).filterM (fun d =>
    return (← d.field "kind").same (.string "Ingress"))

/-- How an ingress is called: its namespace and its name, a question mark for what it lacks. -/
def labelOf (ingress : Document) : Except Fault String := do
  let metadata := (← ingress.field "metadata").orEmpty
  let ns := (← metadata.field? "namespace").getD (.string "?")
  let name := (← metadata.field? "name").getD (.string "?")
  return ns.display ++ "/" ++ name.display

def verdict (ingress : Document) : Except Fault (String × Bool) := do
  let label ← labelOf ingress
  match Schema.ingressReport ingress with
  | none => return (s!"✓ {label}\n", true)
  | some violations => return (s!"✗ {label}: {violations}\n", false)

/-- The lines about ingresses up to the first that has none, the number of valid ones among them,
and the fault that ended it. -/
def verdicts : List Document → String × Nat × Option Fault
  | [] => ("", 0, none)
  | ingress :: rest =>
    match verdict ingress with
    | .error fault => ("", 0, some fault)
    | .ok (line, isValid) =>
      let (lines, valid, fault) := verdicts rest
      (line ++ lines, (if isValid then 1 else 0) + valid, fault)

def validateOutcome (contents : Except Fault (List Document)) : Outcome :=
  match contents.bind ingressesOf with
  | .error fault => { ending := .error fault }
  | .ok ingresses =>
    match verdicts ingresses with
    | (lines, _, some fault) => { output := lines, ending := .error fault }
    | (lines, valid, none) =>
      { output := lines ++ s!"{valid}/{ingresses.length} ingresses valid\n"
        ending := .ok (if valid = ingresses.length then 0 else 1) }

end IngressControl.Command
