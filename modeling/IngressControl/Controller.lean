import IngressControl.Bus
import IngressControl.Engine.Cycle

/-!
A controller at work: its engine, the cloud and the sources that it works with, and the bus that its
events go to.
-/

namespace IngressControl

structure Controller where
  engine : Engine
  cloud : Cloud
  sources : Sources
  recorder : Recorder := .bus
  bus : Bus := {}
  now : Moment

namespace Controller

def absorb (c : Controller) (cycle : Cycle) : Except Fault Unit × Controller :=
  (cycle.outcome, { c with
    engine := cycle.engine
    cloud := cycle.cloud
    bus := cycle.events.foldl (fun bus e => c.recorder.record e bus) c.bus })

def sync (c : Controller) : Except Fault Unit × Controller :=
  c.absorb (c.engine.sync c.sources c.now c.cloud)

/-- Fills the engine from the load balancers that exist. -/
def bootstrap (c : Controller) : Except Fault Unit × Controller :=
  c.absorb (c.engine.bootstrap c.cloud)

/-- The port of the nodes behind a service port. -/
def nodePort (c : Controller) (key : String) (port : Document) : Except Fault Int :=
  Service.nodePort c.sources.services key port

end Controller

end IngressControl
