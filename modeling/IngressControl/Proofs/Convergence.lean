import IngressControl.Proofs.Runs
import IngressControl.Proofs.Settling

/-! Convergence. Wherever earlier failures left a run, one more cycle in which no call fails puts
the load balancer of every ingress in force, removes those of ingresses that are gone, and counts no
error; and that is so exactly as long as the number of targets per call is one that batches can be
cut for. -/

namespace IngressControl
open scoped List
open Document (Texts)

namespace Engine

theorem Move.limit {context : Context} {r : Resource} {a b : Stage} (hm : Move context r a b) :
    b.cloud.limit = a.cloud.limit := by
  cases hm with
  | refused hs => exact (Cloud.limit_of_effect hs).trans rfl
  | create spec hd hs => exact (Cloud.limit_of_effect hs).trans rfl
  | update spec hd hb hs => exact (Cloud.limit_of_effect hs).trans rfl
  | delete hd hs => exact (Cloud.limit_of_effect hs).trans rfl
  | register spec batch hd hb hs => exact (Cloud.limit_of_effect hs).trans rfl
  | deregister batch hs => exact (Cloud.limit_of_effect hs).trans rfl

section Plan

variable {context : Context} {sources : Sources} {previous planned : ResourceSet} {r : Resource}

/-- A planned resource that is not tainted can be reconciled: it wants texts as targets, or it is
left over with a load balancer. -/
theorem workable_of_mem_plan (h : plan context sources previous = .ok planned) (hr : r ∈ planned)
    (ht : r.tainted = false)
    (hn : ∀ instances, Node.listInstances sources.nodes = .ok instances → Texts instances) :
    Workable r where
  texts spec hs := by
    obtain ⟨instances, hlisted, hspec⟩ := instances_of_mem_plan h
    rw [hspec r hr ht spec hs]
    exact hn instances hlisted
  something hd := by
    obtain ⟨ingresses, instances, -, -, rfl⟩ := plan_cases h
    rcases List.mem_append.mp hr with hr | hr
    · -- a declared resource wants something, or is tainted
      obtain ⟨entry, -, rfl⟩ := List.mem_map.mp hr
      unfold resourceOf at ht hd
      split at hd
      · cases hd
      · rename_i hspec
        rw [hspec] at ht
        cases ht
    · -- an orphan is planned for its load balancer
      obtain ⟨r', -, ho, rfl⟩ := mem_orphans.mp hr
      exact Option.isSome_iff_exists.mp (isOrphan_iff.mp ho).2.2

end Plan

end Engine

structure InForce (cloud : Cloud) (spec : DesiredSpec) (r : Resource) : Prop where
  status : r.status = .created ∨ r.status = .modified ∨ r.status = .ready
  error : r.error = none
  desired : r.desired = some spec
  balancer : ∃ h b targets, r.handle = some h ∧ Ledger.get? h.arn cloud.balancers = some b ∧
    spec.needsUpdate b = .ok false ∧ Ledger.get? h.arn cloud.targets = some targets ∧
    ∀ d, d ∈ targets ↔ d ∈ spec.instances

/-- What a cycle reaches in which no call fails. -/
structure Converged (before : Site) (sources : Sources) (after : Site) : Prop where
  wanted : ∀ ingresses instances id ingress spec, sources.ingresses.list = .ok ingresses →
    Node.listInstances sources.nodes = .ok instances →
    ingresses.find? (fun i => Engine.owner? before.engine.context i == some id) = some ingress →
    Ingress.desiredSpec ingress (Service.nodePort sources.services) instances = .ok spec →
    ∃ r, (after.engine.resources.filter fun r => r.owner.same (.ingress id)) = [r] ∧
      InForce after.cloud spec r
  /-- What was not tainted and is no longer declared is gone, and its load balancer with it. -/
  unwanted : ∀ r ∈ before.engine.resources, r.tainted = false →
    ¬ Engine.Declared before.engine.context sources r.owner →
    (∀ r' ∈ after.engine.resources, r'.owner.same r.owner = false) ∧
      ∀ h, r.handle = some h → Ledger.get? h.arn after.cloud.balancers = none
  errors : after.engine.stats.reconcileErrors = before.engine.stats.reconcileErrors

structure Served (limit : Document) (cloud : Cloud) : Prop where
  typed : Engine.TypedBalancers cloud
  limit : cloud.limit = limit

namespace Site

variable {site : Site} {steps : List Step} {step : Step} {limit : Document}

theorem served_next (hc : site.Consistent) (hs : Served limit site.cloud) :
    Served limit (site.next step).cloud := by
  cases step with
  | bootstrap outages =>
    have hr := hc.recorded.of_store_eq (site.cloud.store_withOutages outages)
    have hstore := (Engine.bootstrap_cases site.engine hr.sound).1
    refine ⟨fun arn b hb => hs.typed arn b ?_, ?_⟩
    · exact Cloud.balancers_of_store hstore ▸ hb
    · exact (Cloud.limit_of_effect hstore).trans hs.limit
  | sync outages sources now =>
    have hs : Served limit (site.cloud.withOutages outages) := ⟨hs.typed, hs.limit⟩
    refine Engine.sync_induction (P := fun cloud _ => Served limit cloud) now
      (fun _ _ _ _ h => h) hs (fun _ _ => hs) ?_
    intro _ _ r _ _ a b others hm h
    exact ⟨hm.typedBalancers h.typed, hm.limit.trans h.limit⟩

/-- Through every run from the start the service keeps serving. -/
theorem Initial.served_run (hi : site.Initial) (hs : Served limit site.cloud) :
    Served limit (site.run steps).cloud := by
  induction steps using List.reverseRecOn with
  | nil => exact hs
  | append_singleton steps step ih =>
    simpa using served_next (hi.consistent_run steps) ih

/-- What a settled entry wants is in force in the service. -/
theorem inForce_of_settled (hm : Mirrored site.cloud (holdings site.engine.resources))
    {cloud : Cloud} {r r' : Resource} (hs : Engine.Settled cloud r r')
    (hmem : r' ∈ site.engine.resources) {spec : DesiredSpec} (hd : r.desired = some spec) :
    InForce site.cloud spec r' := by
  obtain ⟨hstatus, h, hh, hfits⟩ := hs.wanted spec hd
  have hx : (⟨r'.owner, h⟩ : Holding) ∈ holdings site.engine.resources :=
    mem_holdings.mpr ⟨r', hmem, rfl, hh⟩
  obtain ⟨b, hb, hbare⟩ := hm.known _ hx
  obtain ⟨targets, hg, htargets⟩ := hm.mirrors _ hx
  refine ⟨hstatus, hs.error, hs.desired.trans hd, h, b, targets, hh, hb, ?_, hg, fun d => ?_⟩
  · rw [spec.needsUpdate_of_bare hbare]
    exact hfits.attributes
  · rw [← htargets d]
    exact hfits.instances d

/-- A cycle that settles its plan converges. -/
theorem converged_commit {before : Site} {sources : Sources} {now : Moment} {cloud : Cloud}
    {planned : ResourceSet} (hd : before.engine.resources.Distinct)
    (hplan : Engine.plan before.engine.context sources before.engine.resources = .ok planned)
    (hall : Engine.PlanSettled before.engine.context now cloud planned)
    (hafter : Mirrored (before.engine.commit now cloud planned).cloud
      (holdings (before.engine.commit now cloud planned).engine.resources)) :
    Converged before sources ⟨(before.engine.commit now cloud planned).engine,
      (before.engine.commit now cloud planned).cloud⟩ := by
  have hdistinct := Engine.distinct_resourcesAfter (Engine.distinct_plan hd hplan)
    before.engine.context now cloud
  refine ⟨?_, ?_, ?_⟩
  · -- the resource planned for the ingress is kept, as the only one of its owner
    intro ingresses instances id ingress spec hlist hnodes hfirst hspec
    obtain ⟨r, hr, howner, htaint, hdesired⟩ :=
      Engine.exists_planned hplan hlist hnodes hfirst hspec
    obtain ⟨r', hr', hs⟩ := hall.exists_settled hr htaint
    have hkept : r' ∈ (Engine.resourcesAfter before.engine.context now cloud planned).filter
        Engine.isKept :=
      List.mem_filter.mpr ⟨hr', by simp [Engine.isKept, hs.desired, hdesired]⟩
    exact ⟨r', Engine.filter_of_mem hdistinct hkept (hs.owner.trans howner),
      inForce_of_settled hafter hs hkept hdesired⟩
  · intro r hr htaint hgone
    refine ⟨fun r' hr' => ?_, fun h hh => ?_⟩
    · obtain ⟨ingresses, hlist, ingress, hmem, id, ho, hid⟩ := hall.declared hplan hr'
      rw [hid, ← Bool.not_eq_true, Engine.ingress_same_iff]
      exact fun he => hgone ⟨ingresses, hlist, ingress, hmem, id, ho, he⟩
    · -- its load balancer was planned for deletion
      obtain ⟨r', -, hs⟩ := hall.exists_settled (Engine.exists_orphan hplan hr htaint hgone hh) rfl
      exact (hs.unwanted rfl).2.2 h hh
  · change before.engine.stats.reconcileErrors + _ = before.engine.stats.reconcileErrors
    rw [hall.countP_failed]
    rfl

/-- One cycle without outages converges, wherever a run is. -/
theorem Initial.converged_run (hi : site.Initial) (ht : site.cloud.TextTargets)
    (hb : Engine.TypedBalancers site.cloud) (hn : ∀ step ∈ steps, step.TextNodes)
    {sources : Sources} {now : Moment} (hlast : (Step.sync [] sources now).TextNodes) {most : Int}
    (hl : site.cloud.limit = .int most) (hpos : 0 < site.engine.context.maxTargets)
    (hle : site.engine.context.maxTargets ≤ most)
    (hv : site.engine.context.maxTargets.toNat < Nat.pow 2 vanishingPower)
    (hok : ((Step.sync [] sources now).cycle (site.run steps)).outcome = .ok ()) :
    Converged (site.run steps) sources ((site.run steps).next (.sync [] sources now)) := by
  have hcontext := context_run site steps
  have hc := hi.consistent_run steps
  have hm := hi.mirrored_run ht hn
  have hserved : Served (.int most) (site.run steps).cloud := hi.served_run ⟨hb, hl⟩
  have hafter := mirrored_next hlast hm
  generalize site.run steps = before at *
  rcases Engine.sync_cases before.engine sources now (before.cloud.withOutages []) with
    ⟨hfail, -⟩ | ⟨planned, hplan, hsync⟩
  · exact absurd hok hfail
  · have hnext : before.next (.sync [] sources now) =
        ⟨(before.engine.commit now (before.cloud.withOutages []) planned).engine,
          (before.engine.commit now (before.cloud.withOutages []) planned).cloud⟩ := by
      rw [← hsync]
      rfl
    have hready : Engine.Ready (before.cloud.withOutages []) before.engine.context.maxTargets := by
      rw [hcontext]
      exact ⟨rfl, Cloud.allows_of_limit hserved.limit hle, hpos, hv⟩
    have hplanned : Mirrored (before.cloud.withOutages []) (holdings planned) :=
      (hm.of_store (before.cloud.store_withOutages [])).subperm
        (Engine.holdings_plan_subperm hplan)
    have hall := Engine.planSettled now
      (fun r hr ht => Engine.workable_of_mem_plan hplan hr ht hlast) hready hplanned hserved.typed
    rw [hnext] at hafter ⊢
    exact converged_commit hc.distinct hplan hall hafter

end Site

/-- With a limit at which quotients vanish a load balancer is created without targets, and that is
an error. -/
theorem Engine.failed_of_vanishing {context : Context} (now : Moment) {cloud : Cloud} {r : Resource}
    {spec : DesiredSpec} {a : Alignment} (ht : r.tainted = false) (hd : r.desired = some spec)
    (hh : r.handle = none) (hc : cloud.Calm) (ha : alignment [] spec.instances = .ok a)
    (hne : a.toAdd ≠ []) (hpos : 0 < context.maxTargets)
    (hv : a.toAdd.length * Nat.pow 2 vanishingPower ≤ context.maxTargets.toNat) :
    (reconcile context now cloud r).failed = true := by
  have hnot : ¬ r.tainted = true := by simp [ht]
  rw [reconcile, if_neg hnot]
  simp only [apply, hd, hh, applyCreate]
  cases hcreate : cloud.create (nameOfKey context.clusterName r.owner.key) (attributes spec)
      (tags context r.owner) with
  | mk outcome cloud' =>
    rcases Cloud.create_cases hcreate with ⟨hnot, -⟩ | ⟨rfl, -, -⟩
    · exact absurd hc hnot
    · have hbare : (cloud.made (nameOfKey context.clusterName r.owner.key) (attributes spec)
          (tags context r.owner)).instances = [] := rfl
      rw [← hbare] at ha
      simp only [alignTargets_of_vanishing ha hne hpos hv, Except.map, Reconciled.failed, ht]
      decide

namespace Shop

def roomy (most : Int) : Site :=
  ⟨{ context := { clusterName := "shop", maxTargets := most } }, { limit := .int most }⟩

theorem initial_roomy (most : Int) : (roomy most).Initial where
  empty := rfl
  sound := ⟨List.nodup_nil, nofun, nofun, rfl⟩
  fresh := nofun

def planned : Resource where
  owner := .ingress ⟨"default", "web"⟩
  desired := some { backends := [⟨"default/web", .int 80, 30080⟩], instances := [.string "i-1"] }

theorem plan_roomy (most : Int) :
    Engine.plan (roomy most).engine.context (sources [ingress] [service]) [] = .ok [planned] := by
  have hplan : Engine.plan start.engine.context (sources [ingress] [service]) [] =
      .ok [planned] := by decide +kernel
  exact hplan

theorem cycle_roomy (most : Int) : (sync [] [ingress] [service]).cycle (roomy most) =
    (roomy most).engine.commit default ((roomy most).cloud.withOutages []) [planned] :=
  Engine.sync_of_plan (plan_roomy most)

/-- With too many targets per call the first cycle counts an error. -/
theorem errors_roomy {most : Int} (hpos : 0 < most) (hv : Nat.pow 2 vanishingPower ≤ most.toNat) :
    ((sync [] [ingress] [service]).cycle (roomy most)).engine.stats.reconcileErrors = 1 := by
  have halign : Engine.alignment [] [.string "i-1"] = .ok ⟨[.string "i-1"], []⟩ := by
    decide +kernel
  have hfailed : (Engine.reconcile (roomy most).engine.context default
      ((roomy most).cloud.withOutages []) planned).failed = true :=
    Engine.failed_of_vanishing default rfl rfl rfl rfl halign (by simp) hpos
      (by simpa [roomy] using hv)
  rw [cycle_roomy]
  change 0 + List.countP Engine.Reconciled.failed [_] = 1
  rw [List.countP_singleton, if_pos hfailed]

end Shop

namespace Site

/-- Exactly with a number of targets per call that is below the power of two at which quotients
vanish does one cycle without failing calls converge, whatever failed before: every ingress whose
spec can be built has one resource, without an error, whose load balancer fits the spec and has its
instances as targets, what is no longer declared is gone with its load balancer, and no error is
counted. -/
theorem converged_iff {most : Int} (hpos : 0 < most) :
    (∀ (site : Site) (steps : List Step) (sources : Sources) (now : Moment) (limit : Int),
      site.Initial → site.cloud.TextTargets → Engine.TypedBalancers site.cloud →
      (∀ step ∈ steps, step.TextNodes) → (Step.sync [] sources now).TextNodes →
      site.engine.context.maxTargets = most → site.cloud.limit = .int limit → most ≤ limit →
      ((Step.sync [] sources now).cycle (site.run steps)).outcome = .ok () →
      Converged (site.run steps) sources ((site.run steps).next (.sync [] sources now))) ↔
    most.toNat < Nat.pow 2 vanishingPower := by
  constructor
  · -- above the bound the small cluster counts an error in its first cycle
    intro hall
    by_contra hn
    have hconv := hall (Shop.roomy most) [] (Shop.sources [Shop.ingress] [Shop.service]) default
      most (Shop.initial_roomy most) nofun nofun nofun (Shop.textNodes_sync [] _ _) rfl rfl le_rfl
      (by rw [run_nil]; exact congrArg Cycle.outcome (Shop.cycle_roomy most))
    have herrors := hconv.errors
    have hone := Shop.errors_roomy hpos (Nat.not_lt.mp hn)
    have hzero : (Shop.roomy most).engine.stats.reconcileErrors = 0 := rfl
    rw [run_nil, hzero] at herrors
    exact absurd (hone.symm.trans herrors) (by decide)
  · intro hv site steps sources now limit hi ht hb hn hlast hmost hl hle hok
    subst hmost
    exact hi.converged_run ht hb hn hlast hl hpos hle hv hok

end Site

namespace Shop

/-- The cycle after one in which the registration of the targets failed converges. -/
theorem converged_after_outage :
    (0 : Int) < 20 ∧ (20 : Int).toNat < Nat.pow 2 vanishingPower ∧
      (start.run [sync [registrationFails] [ingress] [service]]).engine.stats.reconcileErrors = 1 ∧
      Converged (start.run [sync [registrationFails] [ingress] [service]])
        (sources [ingress] [service])
        ((start.run [sync [registrationFails] [ingress] [service]]).next
          (sync [] [ingress] [service])) := by
  have hv : (20 : Int).toNat < Nat.pow 2 vanishingPower := lt_pow_vanishingPower (by decide)
  refine ⟨by decide, hv, by decide +kernel, ?_⟩
  refine (Site.converged_iff (by decide)).mpr hv start _ _ default 20 initial_start nofun nofun
    (fun step hs => ?_) (textNodes_sync [] _ _) rfl rfl le_rfl (by decide +kernel)
  obtain rfl := List.mem_singleton.mp hs
  exact textNodes_sync _ _ _

/-- With as many targets per call as the power of two at which quotients vanish, the first cycle of
the small cluster does not converge, although no call fails. -/
theorem unconverged_at_vanishing :
    (roomy (Nat.pow 2 vanishingPower : Nat)).Initial ∧
      ((sync [] [ingress] [service]).cycle (roomy (Nat.pow 2 vanishingPower : Nat))).outcome =
        .ok () ∧
      ¬ Converged (roomy (Nat.pow 2 vanishingPower : Nat)) (sources [ingress] [service])
        ((roomy (Nat.pow 2 vanishingPower : Nat)).next (sync [] [ingress] [service])) := by
  have hpos : 0 < Nat.pow 2 vanishingPower := Nat.zero_lt_of_lt (lt_pow_vanishingPower le_rfl)
  -- what the number is does not matter, as long as it is not evaluated
  generalize hmost : Nat.pow 2 vanishingPower = most at hpos ⊢
  refine ⟨initial_roomy _, congrArg Cycle.outcome (cycle_roomy _), fun hconv => ?_⟩
  have hone := errors_roomy (Int.natCast_pos.mpr hpos)
    (hmost.trans (Int.toNat_natCast most).symm).le
  have hzero : (roomy most).engine.stats.reconcileErrors = 0 := rfl
  have herrors := hconv.errors
  rw [hzero] at herrors
  exact absurd (hone.symm.trans herrors) (by decide)

end Shop

end IngressControl
