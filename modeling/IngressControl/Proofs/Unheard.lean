import IngressControl.Controller
import IngressControl.Proofs.Adoption

/-! Events are recorded in the middle of a cycle: where a resource is tainted, where a state is
reached, and where a fault is handled. A failure to record there would be taken for one of the
cycle. Here cycles record on a bus of any kind at these places. Recording is best effort, and so
nothing else of a run depends on the bus. -/

namespace IngressControl

/-- Publishing on a bus of some kind: it changes the bus and may fail. -/
abbrev Publisher (β : Type) := Event → β → Except Fault Unit × β

structure Sight where
  outcome : Except Fault Unit
  site : Site

namespace Publisher

variable {β : Type}

def bestEffort (publish : Publisher β) : Publisher β := fun e bus => (.ok (), (publish e bus).2)

def after (publish : Publisher β) (events : List Event) (bus : β) : β :=
  events.foldl (fun bus e => (publish e bus).2) bus

@[simp] theorem after_append (publish : Publisher β) (events events' : List Event) (bus : β) :
    publish.after (events ++ events') bus = publish.after events' (publish.after events bus) :=
  List.foldl_append

end Publisher

namespace Engine

variable {β : Type}

def errorEvent (now : Moment) (owner : Owner) (fault : Fault) : Event :=
  Event.ofMoment now .warning (.string "ERROR") owner (.string fault.message)

/-! A cycle that records on a bus as it goes. What recording raises is raised at its place. -/

section OnBus

variable (record : Publisher β) (now : Moment)

/-- The resource of an ingress. That it is tainted is recorded before. -/
def resourceOn (services : Source) (instances : List Document) (previous : ResourceSet)
    (id : Identity) (ingress : Document) (bus : β) : Except Fault Resource × β :=
  match Ingress.desiredSpec ingress (Service.nodePort services) instances with
  | .ok desired => (.ok (plannedResource id (previous.find? (.ingress id)) desired), bus)
  | .error fault =>
    match record (errorEvent now (.ingress id) fault) bus with
    | (.ok (), bus) => (.ok (taintedResource id (previous.find? (.ingress id)) fault), bus)
    | (.error refusal, bus) => (.error refusal, bus)

/-- The resources of some ingresses, one after the other. Nothing here handles what is raised. -/
def resourcesOn (services : Source) (instances : List Document) (previous : ResourceSet) :
    List (Identity × Document) → β → Except Fault ResourceSet × β
  | [], bus => (.ok [], bus)
  | entry :: rest, bus =>
    match resourceOn record now services instances previous entry.1 entry.2 bus with
    | (.error refusal, bus) => (.error refusal, bus)
    | (.ok r, bus) =>
      match resourcesOn services instances previous rest bus with
      | (.error refusal, bus) => (.error refusal, bus)
      | (.ok set, bus) => (.ok (r :: set), bus)

def applyOn (context : Context) (cloud : Cloud) (r : Resource) (bus : β) : Applied × β :=
  let applied := apply context cloud r
  match applied.outcome with
  | .error _ => (applied, bus)
  | .ok status =>
    match reachedEvent? now r.owner applied.name status with
    | none => (applied, bus)
    | some e =>
      match record e bus with
      | (.ok (), bus) => (applied, bus)
      | (.error refusal, bus) => ({ applied with outcome := .error refusal }, bus)

/-- Reconciles a resource. What is raised, by a call or by recording, makes it fail; recording that
comes last. -/
def reconcileOn (context : Context) (cloud : Cloud) (r : Resource) (bus : β) :
    Resource × Cloud × β :=
  if r.tainted then (r, cloud, bus)
  else
    let (applied, bus) := applyOn record now context cloud r bus
    match applied.outcome with
    | .ok status =>
      ({ r with handle := applied.handle, error := none, status := status,
                lastReconciled := some now }, applied.cloud, bus)
    | .error fault =>
      ({ r with handle := applied.handle, error := some fault.message, status := .failed,
                lastReconciled := some now }, applied.cloud,
        (record (errorEvent now r.owner fault) bus).2)

def reconcileAllOn (context : Context) :
    Cloud → List Resource → β → ResourceSet × Cloud × β
  | cloud, [], bus => ([], cloud, bus)
  | cloud, r :: rest, bus =>
    let (r, cloud, bus) := reconcileOn record now context cloud r bus
    let (done, cloud, bus) := reconcileAllOn context cloud rest bus
    (r :: done, cloud, bus)

/-- A cycle. What recording raises while its plan is made does not count as a failed cycle. -/
def syncOn (engine : Engine) (sources : Sources) (cloud : Cloud) (bus : β) : Sight × β :=
  match sources.ingresses.list with
  | .error fault => (⟨.error (.unableToList .ingresses fault), engine.missed, cloud⟩, bus)
  | .ok ingresses =>
    match Node.listInstances sources.nodes with
    | .error fault => (⟨.error (.unableToList .nodes fault), engine.missed, cloud⟩, bus)
    | .ok instances =>
      match resourcesOn record now sources.services instances engine.resources
          (owned engine.context ingresses) bus with
      | (.error refusal, bus) =>
        (⟨.error refusal, { engine with
          stats := { engine.stats with syncCount := engine.stats.syncCount + 1 } }, cloud⟩, bus)
      | (.ok declared, bus) =>
        let (done, cloud, bus) := reconcileAllOn record now engine.context cloud
          (declared ++ orphans engine.resources declared) bus
        (⟨.ok (), engine.adopt now done, cloud⟩, bus)

end OnBus

section BestEffort

variable (publish : Publisher β) (now : Moment) {context : Context}

theorem resourceOn_bestEffort (services : Source) (instances : List Document)
    (previous : ResourceSet) (id : Identity) (ingress : Document) (bus : β) :
    resourceOn publish.bestEffort now services instances previous id ingress bus =
      (.ok (resourceOf services instances previous id ingress),
        publish.after
          (taintEvent? now (resourceOf services instances previous id ingress)).toList bus) := by
  unfold resourceOn resourceOf
  cases Ingress.desiredSpec ingress (Service.nodePort services) instances <;> rfl

theorem resourcesOn_bestEffort (services : Source) (instances : List Document)
    (previous : ResourceSet) (entries : List (Identity × Document)) (bus : β) :
    resourcesOn publish.bestEffort now services instances previous entries bus =
      (.ok (entries.map fun entry => resourceOf services instances previous entry.1 entry.2),
        publish.after ((entries.map fun entry =>
          resourceOf services instances previous entry.1 entry.2).filterMap
            (taintEvent? now)) bus) := by
  induction entries generalizing bus with
  | nil => rfl
  | cons entry rest ih =>
    rw [resourcesOn, resourceOn_bestEffort]
    dsimp only
    rw [ih, List.map_cons, List.filterMap_eq_flatMap_toList, List.filterMap_eq_flatMap_toList,
      List.flatMap_cons, publish.after_append]

theorem reconcileOn_bestEffort (context : Context) (cloud : Cloud) (r : Resource) (bus : β) :
    reconcileOn publish.bestEffort now context cloud r bus =
      ((reconcile context now cloud r).resource, (reconcile context now cloud r).cloud,
        publish.after (reconcile context now cloud r).event.toList bus) := by
  unfold reconcileOn reconcile
  split
  · rfl
  · -- what the calls led to is left as it is, since recording raises nothing
    dsimp only [applyOn]
    cases ho : (apply context cloud r).outcome with
    | error fault =>
      simp only [ho]
      rfl
    | ok status =>
      dsimp only
      cases reachedEvent? now r.owner (apply context cloud r).name status with
      | none => simp only [ho]; rfl
      | some e => simp only [Publisher.bestEffort, ho]; rfl

/-- A commit whose publisher may fail ends as one without a publisher. -/
theorem reconcileAllOn_bestEffort (context : Context) (cloud : Cloud) (planned : ResourceSet)
    (bus : β) :
    reconcileAllOn publish.bestEffort now context cloud planned bus =
      (resourcesAfter context now cloud planned, cloudAfter context now cloud planned,
        publish.after ((reconcileAll context now cloud planned).filterMap Reconciled.event)
          bus) := by
  induction planned generalizing cloud bus with
  | nil => rfl
  | cons r rest ih =>
    rw [reconcileAllOn, reconcileOn_bestEffort]
    dsimp only
    rw [ih, resourcesAfter_cons, cloudAfter_cons, reconcileAll,
      List.filterMap_eq_flatMap_toList, List.filterMap_eq_flatMap_toList, List.flatMap_cons,
      publish.after_append]

/-- Nothing that is left over is tainted. -/
theorem filterMap_taintEvent?_orphans (previous declared : ResourceSet) :
    (orphans previous declared).filterMap (taintEvent? now) = [] := by
  rw [List.filterMap_eq_nil_iff]
  intro r hr
  obtain ⟨p, -, -, rfl⟩ := mem_orphans.mp hr
  rfl

/-- With best effort a cycle does on every bus what it does on none, and publishes its events. -/
theorem syncOn_bestEffort (engine : Engine) (sources : Sources) (cloud : Cloud) (bus : β) :
    syncOn publish.bestEffort now engine sources cloud bus =
      (⟨(engine.sync sources now cloud).outcome, (engine.sync sources now cloud).engine,
        (engine.sync sources now cloud).cloud⟩,
        publish.after (engine.sync sources now cloud).events bus) := by
  unfold syncOn
  cases hl : sources.ingresses.list with
  | error fault =>
    rw [sync_of_error (plan_of_ingresses _ _ hl)]
    rfl
  | ok ingresses =>
    dsimp only
    cases hn : Node.listInstances sources.nodes with
    | error fault =>
      rw [sync_of_error (plan_of_nodes _ _ hl hn)]
      rfl
    | ok instances =>
      rw [sync_of_plan (plan_of_listed _ _ hl hn), commit_engine, commit_cloud]
      dsimp only
      rw [resourcesOn_bestEffort]
      dsimp only
      rw [reconcileAllOn_bestEffort, ← publish.after_append]
      simp only [commit, List.filterMap_append, filterMap_taintEvent?_orphans, List.append_nil]
      rfl

end BestEffort

end Engine

/-- A step that records on a bus. A bootstrap records nothing. -/
def Step.sightOn {β : Type} (record : Publisher β) (site : Site) (bus : β) : Step → Sight × β
  | bootstrap outages =>
    let cycle := site.engine.bootstrap (site.cloud.withOutages outages)
    (⟨cycle.outcome, cycle.engine, cycle.cloud⟩, bus)
  | sync outages sources now =>
    Engine.syncOn record now site.engine sources (site.cloud.withOutages outages) bus

/-- What is to be seen of a step, whatever is recorded. -/
def Step.sight (site : Site) (step : Step) : Sight := ⟨(step.cycle site).outcome, site.next step⟩

theorem Engine.bootstrap_events (engine : Engine) (cloud : Cloud) :
    (engine.bootstrap cloud).events = [] := by
  unfold bootstrap
  split
  · rfl
  · split <;> rfl

theorem Step.sightOn_bestEffort {β : Type} (publish : Publisher β) (site : Site) (bus : β)
    (step : Step) :
    step.sightOn publish.bestEffort site bus =
      (step.sight site, publish.after (step.cycle site).events bus) := by
  cases step with
  | bootstrap outages =>
    rw [cycle, Engine.bootstrap_events]
    rfl
  | sync outages sources now => exact Engine.syncOn_bestEffort publish now _ _ _ _

namespace Site

variable {β : Type}

def history : Site → List Step → List Sight
  | _, [] => []
  | site, step :: rest => step.sight site :: history (site.next step) rest

/-- What is to be seen of the steps of a run that records on a bus. What happens on the bus after a
step, such as subscribers that take events, come or go, is up to them. -/
def historyOn (publish : Publisher β) : (Nat → β → β) → Site → β → List Step → List Sight
  | _, _, _, [] => []
  | meanwhile, site, bus, step :: rest =>
    let (sight, bus) := step.sightOn publish.bestEffort site bus
    sight :: historyOn publish (fun n => meanwhile (n + 1)) sight.site (meanwhile 0 bus) rest

/-- No bus is heard of in a run. -/
theorem historyOn_eq (publish : Publisher β) (meanwhile : Nat → β → β) (site : Site) (bus : β)
    (steps : List Step) : historyOn publish meanwhile site bus steps = site.history steps := by
  induction steps generalizing meanwhile site bus with
  | nil => rfl
  | cons step rest ih =>
    rw [historyOn, step.sightOn_bestEffort, history]
    exact congrArg (step.sight site :: ·) (ih _ _ _)

end Site

/-- What publishing does with a recorder: nothing at all, nothing but fail, or reach a bus. -/
def Recorder.publisher : Recorder → Publisher Bus
  | .silent, _, b => (.ok (), b)
  | .broken, _, b => (.error (.outage "broken"), b)
  | .bus, e, b => (.ok (), b.publish e)

theorem Recorder.record_eq (recorder : Recorder) (e : Event) (b : Bus) :
    recorder.record e b = (recorder.publisher e b).2 := by
  cases recorder <;> rfl

namespace Controller

def site (c : Controller) : Site := ⟨c.engine, c.cloud⟩

def step (c : Controller) : Step → Except Fault Unit × Controller
  | .bootstrap outages => { c with cloud := c.cloud.withOutages outages }.bootstrap
  | .sync outages sources now =>
    { c with cloud := c.cloud.withOutages outages, sources := sources, now := now }.sync

/-- What is to be seen of the steps of a run of a controller, while others use its bus between
them. -/
def history : (Nat → Bus → Bus) → Controller → List Step → List Sight
  | _, _, [] => []
  | meanwhile, c, step :: rest =>
    let (outcome, c) := c.step step
    ⟨outcome, c.site⟩ ::
      history (fun n => meanwhile (n + 1)) { c with bus := meanwhile 0 c.bus } rest

/-- A controller publishes the events of its cycle, and no others. -/
theorem absorb_bus (c : Controller) (cycle : Cycle) :
    (c.absorb cycle).2.bus = c.recorder.publisher.after cycle.events c.bus := by
  simp only [absorb, Publisher.after, Recorder.record_eq]

theorem step_eq (c : Controller) (step : Step) :
    Sight.mk (c.step step).1 (c.step step).2.site = step.sight c.site ∧
      (c.step step).2.recorder = c.recorder ∧
      (c.step step).2.bus = c.recorder.publisher.after (step.cycle c.site).events c.bus := by
  cases step with
  | bootstrap outages => exact ⟨rfl, rfl, absorb_bus _ _⟩
  | sync outages sources now => exact ⟨rfl, rfl, absorb_bus _ _⟩

/-- A controller records as it goes. -/
theorem history_eq (meanwhile : Nat → Bus → Bus) (c : Controller) (steps : List Step) :
    history meanwhile c steps =
      Site.historyOn c.recorder.publisher meanwhile c.site c.bus steps := by
  induction steps generalizing meanwhile c with
  | nil => rfl
  | cons step rest ih =>
    obtain ⟨hsight, hrecorder, hbus⟩ := c.step_eq step
    have hsite : (c.step step).2.site = c.site.next step := congrArg Sight.site hsight
    rw [history, Site.historyOn, step.sightOn_bestEffort]
    dsimp only
    rw [ih, hsight, ← hbus, ← hrecorder, Step.sight, ← hsite]
    rfl

end Controller

/-- Nothing that is to be seen of a run tells whether, where or how well its events are
recorded. -/
structure Site.Unheard (site : Site) (steps : List Step) : Prop where
  controllers : ∀ {c d : Controller}, c.site = site → d.site = site →
    ∀ meanwhile meanwhile', c.history meanwhile steps = d.history meanwhile' steps
  /-- They record in the middle of their cycles. -/
  inside : ∀ {c : Controller}, c.site = site → ∀ meanwhile,
    c.history meanwhile steps = historyOn c.recorder.publisher meanwhile site c.bus steps
  buses : ∀ {β γ : Type} (publish : Publisher β) (publish' : Publisher γ)
    (meanwhile : Nat → β → β) (meanwhile' : Nat → γ → γ) (bus : β) (bus' : γ),
    historyOn publish meanwhile site bus steps = historyOn publish' meanwhile' site bus' steps

/-- Events do not influence a run, wherever it starts, whatever it does and whichever of its calls
fail. -/
theorem Site.unheard (site : Site) (steps : List Step) : site.Unheard steps where
  controllers {c d} hc hd meanwhile meanwhile' := by
    rw [c.history_eq, d.history_eq, historyOn_eq, historyOn_eq, hc, hd]
  inside {c} hc meanwhile := by rw [c.history_eq, hc]
  buses publish publish' meanwhile meanwhile' bus bus' := by rw [historyOn_eq, historyOn_eq]

def Shop.statusesOn (record : Publisher Bus) : List Status :=
  (Engine.syncOn record default start.engine (sources [ingress] [service]) start.cloud
    {}).1.site.engine.resources.map Resource.status

/-- A bus that fails would make a creation fail if recording passed that on. -/
example : Shop.statusesOn Recorder.broken.publisher = [.failed] ∧
    Shop.statusesOn Recorder.broken.publisher.bestEffort = [.created] := by
  decide +kernel

end IngressControl
