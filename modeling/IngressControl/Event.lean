import IngressControl.Clock
import IngressControl.Document.Json.Writer
import IngressControl.Resource

/-!
Events about the owners of load balancers and the text form in which they are streamed: a line with
the severity, a line with the event in JSON, and an empty line. Apart from its severity an event may
hold any values.
-/

namespace IngressControl

inductive Severity
  | normal
  | warning
deriving DecidableEq, Repr, Inhabited

namespace Severity

def word : Severity → String
  | normal => "Normal"
  | warning => "Warning"

def ofDocument : Document → Except Fault Severity
  | .string "Normal" => .ok normal
  | .string "Warning" => .ok warning
  | d => .error (.eventType d.literal)

end Severity

structure Event where
  severity : Severity
  reason : Document
  ns : Document
  name : Document
  message : Document
  timestamp : Document
deriving DecidableEq, Repr, Inhabited

namespace Event

def ofMoment (now : Moment) (severity : Severity) (reason : Document) (owner : Owner)
    (message : Document) : Event :=
  ⟨severity, reason, owner.ns, owner.name, message, .string now.withLetter⟩

def view (e : Event) : Document :=
  .object [("event_type", .string e.severity.word), ("reason", e.reason), ("namespace", e.ns),
    ("name", e.name), ("message", e.message), ("timestamp", e.timestamp)]

def stream (e : Event) : String :=
  "event: " ++ e.severity.word ++ "\ndata: " ++ Json.write e.view ++ "\n\n"

end Event

end IngressControl
