import IngressControl.Api.Basic
import IngressControl.Command.Arguments
import IngressControl.Command.Basic
import IngressControl.Command.Report
import IngressControl.Daemon

/-! A status service within the process of the tool: a daemon that has run one cycle and then
answers. -/

namespace IngressControl.Command.Local

/-- The target within a URL: what follows the host. -/
def targetOf (url : String) : String :=
  let cs := url.toList
  let afterScheme := match cs.dropWhile (· != ':') with
    | ':' :: '/' :: '/' :: rest => rest
    | _ => cs
  String.ofList (afterScheme.dropWhile (· != '/'))

def phrase : Nat → String
  | 200 => "OK"
  | 307 => "Temporary Redirect"
  | 404 => "Not Found"
  | 405 => "Method Not Allowed"
  | 503 => "Service Unavailable"
  | _ => ""

def reasonOf (run : Daemon.Run) : String :=
  match run.ending with
  | .error fault => fault.message
  | .ok _ => "\n".intercalate run.critical

def answer (run : Daemon.Run) (request : Request) : Answer :=
  match run.served with
  | none => .unreachable (reasonOf run)
  | some (_, c) =>
    let response := (Api.respond c request.method (Api.Target.ofText (targetOf request.url))).1
    .answered response.status (phrase response.status) response.body.text

end IngressControl.Command.Local

/-! Running the tool. A run makes at most one request to the status service, so it is the request
and what follows from its answer. -/

namespace IngressControl.Command

def defaultService : String := "http://localhost:8080/api/v1"

def Invocation.request? (i : Invocation) : Option Request :=
  match i.action with
  | .state _ => some ⟨"GET", i.service ++ "/state"⟩
  | .hostnames ns name => some ⟨"GET", i.service ++ s!"/resources/{ns}/{name}/hostnames"⟩
  | .sync => some ⟨"POST", i.service ++ "/sync"⟩
  | .validate _ => none

def failedOutcome (lines : List String) : Outcome where
  errors := String.join (lines.map (· ++ "\n"))
  ending := .ok 1

def blame? (status : Int) : Option String :=
  if 400 ≤ status ∧ status < 500 then some "Client"
  else if 500 ≤ status ∧ status < 600 then some "Server"
  else none

/-- What is told of a failed request: its line, and what its body says. A body that is nested too
deep is told by nobody. -/
def failureOutcome (line body : String) : Outcome :=
  match Json.read body with
  | .ok detail => failedOutcome [line, "Detail: " ++ detail.display]
  | .error (.tooDeep kind) => { failedOutcome [line] with ending := .error (.tooDeep kind) }
  | .error _ => failedOutcome [line, "Response: " ++ body]

def showAnswer (answer : Document) : Action → Outcome
  | .state format => stateOutcome format answer
  | .hostnames _ _ => hostnamesOutcome answer
  | .sync => .ofText (syncText answer)
  | .validate _ => {}

def conclude (request : Request) (action : Action) : Answer → Outcome
  | .unreachable reason => failedOutcome ["Error: " ++ reason]
  | .answered status reason body =>
    match blame? status with
    | some side =>
      failureOutcome s!"Error: {status} {side} Error: {reason} for url: {request.url}" body
    | none =>
      match Json.read body with
      | .ok .null => failedOutcome []
      | .ok answer => showAnswer answer action
      | .error (.malformed fault) => failedOutcome ["Error: " ++ fault.message]
      | .error failure => { ending := .error failure.toFault }

/-- The requests that a command line leads to, and its outcome. The answer comes from the status
service. -/
def perform (folder : Folder) (service : String) (words : List String)
    (answer : Request → Answer) : List Request × Outcome :=
  match read folder.holds service words with
  | .error outcome => ([], outcome)
  | .ok invocation =>
    match invocation.request?, invocation.action with
    | some request, action => ([request], conclude request action (answer request))
    | none, .validate file => ([], validateOutcome (folder.read file))
    | none, _ => ([], {})

/-- A run of the tool on a command line: the requests that it made, and what it wrote. -/
def run (folder : Folder) (service : String) (words : List String) (answer : Request → Answer) :
    List Request × Outcome :=
  let (requests, outcome) := perform folder service words answer
  (requests, outcome.plain)

end IngressControl.Command
