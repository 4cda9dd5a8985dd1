import IngressControl.Api.Target
import IngressControl.Controller

/-!
The status service: health, the committed resources, the host names of a resource, and a cycle on
demand. It reads committed state only.
-/

namespace IngressControl.Api

inductive Body
  | empty
  | json (content : Document)
  | page (text : String)
deriving Repr

def Body.text : Body → String
  | empty => ""
  | json content => Json.write content
  | page text => text

def Body.type? : Body → Option String
  | page _ => some "text/html; charset=utf-8"
  | _ => none

structure Response where
  status : Nat
  body : Body
deriving Repr

def Response.success (fields : List (String × Document)) : Response :=
  ⟨200, .json (.object fields)⟩

def Response.refusal (status : Nat) (detail : String) : Response :=
  ⟨status, .json (.object [("detail", .string detail)])⟩

inductive Route
  | health
  | state
  | hostnames (id : Identity)
  | sync
  | events
  | manual
deriving DecidableEq, Repr

namespace Route

def manualPaths : List String := ["/docs", "/docs/oauth2-redirect", "/redoc", "/openapi.json"]

def withoutBreak (path : String) : String :=
  if path.toList.getLast? = some '\n' then String.ofList path.toList.dropLast else path

def ofExactPath? (path : String) : Option Route :=
  if manualPaths.contains path then some manual
  else match (Text.pieces '/' path.toList).map String.ofList with
  | ["", ""] => some health
  | ["", "api", "v1", "state"] => some state
  | ["", "api", "v1", "sync"] => some sync
  | ["", "api", "v1", "events"] => some events
  | ["", "api", "v1", "resources", ns, name, "hostnames"] =>
    if ns.isEmpty || name.isEmpty then none else some (hostnames ⟨ns, name⟩)
  | _ => none

def ofPath? (path : String) : Option Route := ofExactPath? (withoutBreak path)

def method : Route → String
  | sync => "POST"
  | _ => "GET"

end Route

def withoutSlash (path : String) : String :=
  String.ofList (Text.dropEndWhile (· == '/') path.toList)

/-- The answer for a path that no route has: a redirection if it only ends in too many slashes. -/
def noRoute (path : String) : Response :=
  if (Route.ofPath? (withoutSlash path)).isSome then ⟨307, .empty⟩ else .refusal 404 "Not Found"

def health (c : Controller) : Response :=
  .success [("status", .string "ok"), ("service", .string "albsync"),
    ("cluster_name", .string c.engine.context.clusterName), ("stats", c.engine.stats.view)]

def state (c : Controller) : Response :=
  .success [("cluster_name", .string c.engine.context.clusterName),
    ("resources", c.engine.statusView)]

def hostnames (c : Controller) (id : Identity) : Response :=
  match c.engine.hostnames id with
  | .ok names => .success [("namespace", .string id.ns), ("name", .string id.name),
      ("hostnames", .array names)]
  | .error fault => .refusal 404 fault.message

def sync (c : Controller) : Response × Controller :=
  match c.sync with
  | (.ok (), c) => (.success [("status", .string "completed"),
      ("managed_resources", .int c.engine.resources.length)], c)
  | (.error fault, c) => (.refusal 503 fault.message, c)

def noEvents : Response := .refusal 503 "Events not available"

def manual : Response := ⟨200, .page "albsync"⟩

def respond (c : Controller) (method : String) (target : Target) : Response × Controller :=
  match Route.ofPath? target.path with
  | none => (noRoute target.path, c)
  | some route =>
    if method != route.method then (.refusal 405 "Method Not Allowed", c)
    else match route with
      | .health => (health c, c)
      | .state => (state c, c)
      | .hostnames id => (hostnames c id, c)
      | .sync => sync c
      | .events => (noEvents, c)
      | .manual => (manual, c)

end IngressControl.Api
