import IngressControl.Controller
import IngressControl.Proofs.Adoption

/-! A cycle fails as a whole or not at all. It fails if its ingresses or its nodes cannot be listed,
and then only counts that; junk among what is listed and calls that fail do not stop it. -/

namespace IngressControl

theorem Context.maxConcurrent_pos {context : Context} (h : context.check = .ok ()) :
    0 < context.maxConcurrent := by
  obtain ⟨_, -, hlimit⟩ := bind_eq_ok h
  by_contra hnot
  rw [if_pos (by omega)] at hlimit
  cases hlimit

structure Controller.AllOrNothing (c : Controller) : Prop where
  raises : (∃ fault, c.sync.1 = .error fault) ↔
    (∃ fault, c.sources.ingresses.list = .error fault) ∨
      ∃ fault, Node.listInstances c.sources.nodes = .error fault
  ingresses : ∀ {fault}, c.sources.ingresses.list = .error fault →
    c.sync = (.error (.unableToList .ingresses fault), { c with engine := c.engine.missed })
  nodes : ∀ {ingresses fault}, c.sources.ingresses.list = .ok ingresses →
    Node.listInstances c.sources.nodes = .error fault →
    c.sync = (.error (.unableToList .nodes fault), { c with engine := c.engine.missed })
  carried : ∀ {ingresses instances}, c.sources.ingresses.list = .ok ingresses →
    Node.listInstances c.sources.nodes = .ok instances →
    c.sync.1 = .ok () ∧ c.engine.CarriesThrough c.sources c.now c.sync.2.engine
  /-- So it is with any other load balancer service and in whatever order calls are made: the
  reconciliations come to an end, and the cycle is carried through with what became of its plan.
  Making the calls on the cloud is one way to get there. -/
  anyService : ∀ {ingresses instances}, c.sources.ingresses.list = .ok ingresses →
    Node.listInstances c.sources.nodes = .ok instances →
    ∃ planned, Engine.plan c.engine.context c.sources c.engine.resources = .ok planned ∧
      Engine.Ends c.engine.context c.now planned (fun done =>
        c.engine.CarriesThrough c.sources c.now (c.engine.adopt c.now done)) ∧
      ∃ done : ResourceSet, Engine.Turns c.engine.context c.now (planned.map .waiting)
        (done.map .finished) ∧ c.sync.2.engine = c.engine.adopt c.now done

namespace Controller

variable {c : Controller}

/-- A cycle that cannot plan counts the failure and changes nothing else. -/
theorem sync_of_plan_error {fault : Fault}
    (h : Engine.plan c.engine.context c.sources c.engine.resources = .error fault) :
    c.sync = (.error fault, { c with engine := c.engine.missed }) := by
  rw [sync, Engine.sync_of_error h]
  rfl

theorem sync_of_plan {planned : ResourceSet}
    (h : Engine.plan c.engine.context c.sources c.engine.resources = .ok planned) :
    c.sync.1 = .ok () ∧ c.sync.2.engine = c.engine.adopt c.now
      (Engine.resourcesAfter c.engine.context c.now c.cloud planned) := by
  rw [sync, Engine.sync_of_plan h, ← Engine.commit_engine]
  exact ⟨rfl, rfl⟩

/-- Whatever is committed, whatever the sources hold and whichever calls fail, a cycle fails only if
its ingresses or its nodes cannot be listed, and then changes nothing but two counters. -/
theorem allOrNothing_sync (c : Controller) (hc : c.engine.context.check = .ok ()) :
    c.AllOrNothing where
  raises := by
    rw [← Engine.plan_eq_error_iff c.engine.context c.engine.resources]
    cases hplan : Engine.plan c.engine.context c.sources c.engine.resources with
    | error fault => simp [sync_of_plan_error hplan]
    | ok planned => simp [(sync_of_plan hplan).1]
  ingresses h := sync_of_plan_error (Engine.plan_of_ingresses _ _ h)
  nodes hl h := sync_of_plan_error (Engine.plan_of_nodes _ _ hl h)
  carried hl h := by
    have hplan := Engine.plan_of_listed c.engine.context c.engine.resources hl h
    obtain ⟨hok, hengine⟩ := sync_of_plan hplan
    refine ⟨hok, ?_⟩
    rw [hengine]
    exact Engine.carriesThrough_adopt hplan (Engine.planBecomes_resourcesAfter _ _ _ _)
  anyService hl h := by
    have hplan := Engine.plan_of_listed c.engine.context c.engine.resources hl h
    have hpos := Context.maxConcurrent_pos hc
    refine ⟨_, hplan, ?_, _, ?_, (sync_of_plan hplan).2⟩
    · exact (Engine.ends_planBecomes hpos c.now _).imp fun hdone =>
        Engine.carriesThrough_adopt hplan hdone
    · exact Engine.turns_resourcesAfter hpos c.cloud _ []

end Controller

namespace Shop

/-- A controller that sees an ingress between values that are none, a service that is none and
nodes, and whose registrations fail. -/
def littered : Controller where
  engine := start.engine
  cloud := start.cloud.withOutages [registrationFails]
  sources := sources [.int 3, ingress, .object [("metadata", .string "web")]] [service, .null]
  now := default

/-- It is all or nothing also with values that are no objects and with registrations that fail. -/
theorem allOrNothing_littered :
    littered.engine.context.check = .ok () ∧ littered.AllOrNothing := by
  have hc : littered.engine.context.check = .ok () := by decide +kernel
  exact ⟨hc, littered.allOrNothing_sync hc⟩

end Shop

end IngressControl
