import IngressControl.Api.Target
import IngressControl.Bus

/-!
Streams of events. A stream subscribes to the bus when it is opened, sends what its subscription
yields, and unsubscribes when it is closed.
-/

namespace IngressControl.Api

structure Stream where
  subscription : Nat
  sent : String := ""
deriving Repr

namespace Stream

def contentType : String := "text/event-stream; charset=utf-8"

def cacheControl : String := "no-cache"

/-- Whether a parameter is empty or missing, or equal to the given value. -/
def matchesParameter (target : Target) (name : String) (value : Document) : Bool :=
  match target.value? name with
  | some text => text.isEmpty || value.same (.string text)
  | none => true

def wants (target : Target) (e : Event) : Bool :=
  matchesParameter target "namespace" e.ns && matchesParameter target "name" e.name

def openOn (bus : Bus) (target : Target) : Stream × Bus :=
  let (subscription, bus) := bus.subscribe (wants target)
  ({ subscription := subscription }, bus)

def send (s : Stream) (bus : Bus) : Stream × Bus :=
  let (events, bus) := bus.drain s.subscription
  ({ s with sent := s.sent ++ String.join (events.map Event.stream) }, bus)

def close (s : Stream) (bus : Bus) : Bus := bus.unsubscribe s.subscription

end Stream

end IngressControl.Api
