import IngressControl.Proofs.Convergence
import IngressControl.Proofs.Failures
import IngressControl.Proofs.Tally

/-! Batches that pass. What stops the reconciliations of a cycle is recorded on its resources. None
of it is a fault of the batches, wherever a run gets, exactly if batches can be cut for the number
of targets per call. An engine accepts other numbers as well. -/

namespace IngressControl

/-- A fault of batches: they cannot be cut, or one of them has too many targets. -/
def Fault.isBatching : Fault → Bool
  | .groupCount _ | .groupSize | .callLimit _ | .tooManyTargets _ _ => true
  | _ => false

theorem Fault.Ordinary.isBatching_eq {fault : Fault} (h : fault.Ordinary) :
    fault.isBatching = false := by
  cases h with
  | documents h => cases h <;> rfl
  | calls h => cases h <;> rfl

namespace Engine

variable {context : Context} {now : Moment}

/-- The fault that stops the reconciliation of a resource. -/
def stoppage? (context : Context) (cloud : Cloud) (r : Resource) : Option Fault :=
  if r.tainted then none
  else
    match (apply context cloud r).outcome with
    | .ok _ => none
    | .error fault => some fault

def stoppages (context : Context) (now : Moment) : Cloud → ResourceSet → List Fault
  | _, [] => []
  | cloud, r :: rest =>
    (stoppage? context cloud r).toList ++
      stoppages context now (reconcile context now cloud r).cloud rest

def failure? (r : Resource) : Option String := if r.tainted then none else r.error

/-- What stops an entry is the outcome of its application. -/
theorem apply_of_stoppage {cloud : Cloud} {r : Resource} {fault : Fault}
    (h : stoppage? context cloud r = some fault) :
    r.tainted = false ∧ (apply context cloud r).outcome = .error fault := by
  unfold stoppage? at h
  split at h
  · cases h
  · rename_i ht
    split at h
    · cases h
    · rename_i fault' ha
      obtain rfl := Option.some.inj h
      exact ⟨Bool.eq_false_iff.mpr ht, ha⟩

/-- What stopped a reconciliation is what is recorded. -/
theorem failure?_reconcile (context : Context) (now : Moment) (cloud : Cloud) (r : Resource) :
    failure? (reconcile context now cloud r).resource =
      (stoppage? context cloud r).map Fault.message := by
  cases ht : r.tainted with
  | true => rw [reconcile_of_tainted ht, failure?, stoppage?, if_pos ht, if_pos ht]; rfl
  | false =>
    have hnot : ¬ r.tainted = true := by simp [ht]
    rw [reconcile, stoppage?, if_neg hnot, if_neg hnot]
    dsimp only
    cases (apply context cloud r).outcome with
    | ok status => simp [failure?]
    | error fault => simp [failure?, ht]

/-- A load balancer that could not be deleted stays on its resource. -/
theorem handle_applyDelete {cloud : Cloud} {h : Handle} {fault : Fault}
    (ha : (applyDelete cloud h).outcome = .error fault) :
    (applyDelete cloud h).handle = some h := by
  unfold applyDelete at ha ⊢
  split
  · rfl
  · rename_i hdelete
    rw [hdelete] at ha
    cases ha

/-- A resource whose reconciliation was stopped is kept: it is still wanted, or still there. -/
theorem isKept_of_stoppage {cloud : Cloud} {r : Resource} {fault : Fault}
    (h : stoppage? context cloud r = some fault) :
    isKept (reconcile context now cloud r).resource = true := by
  obtain ⟨ht, ha⟩ := apply_of_stoppage h
  have hnot : ¬ r.tainted = true := by simp [ht]
  rw [reconcile, if_neg hnot]
  dsimp only
  rw [ha]
  cases hd : r.desired with
  | some spec => simp [isKept]
  | none =>
    have hhandle : (apply context cloud r).handle.isSome := by
      cases hh : r.handle with
      | none =>
        rw [apply, hd, hh] at ha
        cases ha
      | some handle =>
        rw [apply, hd, hh] at ha ⊢
        rw [handle_applyDelete ha]
        rfl
    simp [isKept, hhandle]

/-- What is recorded on the resources that a cycle keeps is what stopped their reconciliations. -/
theorem filterMap_failure?_resourcesAfter (context : Context) (now : Moment) (cloud : Cloud)
    (planned : ResourceSet) :
    ((resourcesAfter context now cloud planned).filter isKept).filterMap failure? =
      (stoppages context now cloud planned).map Fault.message := by
  induction planned generalizing cloud with
  | nil => rfl
  | cons r rest ih =>
    rw [resourcesAfter_cons, stoppages, List.map_append, ← ih]
    have hrecorded := failure?_reconcile context now cloud r
    cases hs : stoppage? context cloud r with
    | none =>
      rw [hs] at hrecorded
      cases hk : isKept (reconcile context now cloud r).resource with
      | true => rw [List.filter_cons_of_pos hk, List.filterMap_cons, hrecorded]; rfl
      | false => rw [List.filter_cons_of_neg (by simp [hk])]; rfl
    | some fault =>
      rw [hs] at hrecorded
      rw [List.filter_cons_of_pos (isKept_of_stoppage hs), List.filterMap_cons, hrecorded]
      rfl

@[simp] theorem limit_reconcile (context : Context) (now : Moment) (cloud : Cloud) (r : Resource) :
    (reconcile context now cloud r).cloud.limit = cloud.limit := by
  have hkeeps {a b : Stage} (hm : Moves context r a b) : b.cloud.limit = a.cloud.limit := by
    induction hm with
    | refl => rfl
    | tail _ hmove ih => exact hmove.limit.trans ih
  exact hkeeps (reconcile_moves context now cloud r)

/-- As long as batches pass, nothing that stops a reconciliation is a fault of the batches. -/
theorem ordinary_of_mem_stoppages {cloud : Cloud} (hp : Passable cloud context.maxTargets)
    (planned : ResourceSet) : ∀ fault ∈ stoppages context now cloud planned, fault.Ordinary := by
  induction planned generalizing cloud with
  | nil => exact fun fault hf => absurd hf List.not_mem_nil
  | cons r rest ih =>
    intro fault hf
    rcases List.mem_append.mp hf with hf | hf
    · have hs : stoppage? context cloud r = some fault := Option.mem_toList.mp hf
      exact apply_failsWith hp r fault (apply_of_stoppage hs).2
    · exact ih (hp.of_limit_eq (limit_reconcile context now cloud r)) fault hf

/-- If the instances of a new load balancer cannot be cut into batches, that stops its
reconciliation. -/
theorem stoppage?_of_uncut {cloud : Cloud} {r : Resource} {spec : DesiredSpec} {a : Alignment}
    {fault : Fault} (ht : r.tainted = false) (hd : r.desired = some spec) (hh : r.handle = none)
    (hc : cloud.Calm) (ha : alignment [] spec.instances = .ok a) (hne : a.toAdd ≠ [])
    (hf : groupsForLimit a.toAdd context.maxTargets = .error fault) :
    stoppage? context cloud r = some fault := by
  have hnot : ¬ r.tainted = true := by simp [ht]
  have hn : ¬ a.isNothing = true := by
    simp only [Alignment.isNothing, Bool.and_eq_true, List.isEmpty_iff]
    exact fun hn => hne hn.1
  rw [stoppage?, if_neg hnot]
  simp only [apply, hd, hh, applyCreate]
  cases hcreate : cloud.create (nameOfKey context.clusterName r.owner.key) (attributes spec)
      (tags context r.owner) with
  | mk outcome cloud' =>
    rcases Cloud.create_cases hcreate with ⟨hcalm, -⟩ | ⟨rfl, -, -⟩
    · exact absurd hc hcalm
    · have hbare : (cloud.made (nameOfKey context.clusterName r.owner.key) (attributes spec)
          (tags context r.owner)).instances = [] := rfl
      simp only [alignTargets, hbare, ha, if_neg hn, callInBatches, hf, Except.map]

end Engine

namespace Cloud

variable {cloud : Cloud}

theorem limit_perform {α : Type} {act : Cloud → Reply α}
    (h : ∀ c, (act c).2.limit = c.limit) (operation : Operation) (target : Document) :
    (cloud.perform operation target act).2.limit = cloud.limit := by
  unfold perform
  dsimp only
  split
  · rfl
  · exact h _

end Cloud

namespace Discovery

theorem limit_assembleOne (cloud : Cloud) (description : Document) :
    (assembleOne cloud description).2.limit = cloud.limit := by
  unfold assembleOne
  split
  · rfl
  · exact Cloud.limit_perform (fun _ => rfl) _ _

theorem limit_assembleAll (cloud : Cloud) (descriptions : List Document) :
    (assembleAll cloud descriptions).2.limit = cloud.limit := by
  induction descriptions generalizing cloud with
  | nil => rfl
  | cons description rest ih => exact (ih _).trans (limit_assembleOne cloud description)

@[simp] theorem limit_assemble (cloud : Cloud) (cluster : String) :
    (assemble cloud cluster).2.limit = cloud.limit := by
  have hlist : (cloud.list cluster).2.limit = cloud.limit := Cloud.limit_perform (fun _ => rfl) _ _
  unfold assemble
  split
  · rename_i hl
    rwa [hl] at hlist
  · rename_i hl
    rw [hl] at hlist
    exact (limit_assembleAll _ _).trans hlist

end Discovery

@[simp] theorem Engine.limit_bootstrap (engine : Engine) (cloud : Cloud) :
    (engine.bootstrap cloud).cloud.limit = cloud.limit := by
  have hassemble := Discovery.limit_assemble cloud engine.context.clusterName
  unfold bootstrap
  split
  · rfl
  · split
    · rename_i ha
      rwa [ha] at hassemble
    · rename_i ha
      rwa [ha] at hassemble

def Step.stoppages (site : Site) : Step → List Fault
  | bootstrap _ => []
  | sync outages sources now =>
    match Engine.plan site.engine.context sources site.engine.resources with
    | .ok planned =>
      Engine.stoppages site.engine.context now (site.cloud.withOutages outages) planned
    | .error _ => []

structure Step.Unhindered (site : Site) (step : Step) : Prop where
  recorded : ∀ commit ∈ step.commit? site,
    commit.set.filterMap Engine.failure? = (step.stoppages site).map Fault.message
  free : ∀ fault ∈ step.stoppages site, fault.isBatching = false
  passable : Engine.Passable site.cloud site.engine.context.maxTargets

namespace Site

variable {site : Site} {step : Step}

/-- No step changes the limit of the service. -/
@[simp] theorem limit_next (site : Site) (step : Step) :
    (site.next step).cloud.limit = site.cloud.limit := by
  cases step with
  | bootstrap outages => exact Engine.limit_bootstrap site.engine (site.cloud.withOutages outages)
  | sync outages sources now =>
    refine Engine.sync_induction (P := fun cloud _ => cloud.limit = site.cloud.limit) now
      (fun _ _ _ _ h => h) rfl (fun _ _ => rfl) ?_
    intro _ _ r _ _ a b others hm h
    exact hm.limit.trans h

@[simp] theorem limit_run (site : Site) (steps : List Step) :
    (site.run steps).cloud.limit = site.cloud.limit := by
  induction steps generalizing site with
  | nil => rfl
  | cons step rest ih => simp [ih]

/-- A cycle records on its resources what stopped their reconciliations. -/
theorem recorded_next (site : Site) (step : Step) : ∀ commit ∈ step.commit? site,
    commit.set.filterMap Engine.failure? = (step.stoppages site).map Fault.message := by
  intro commit hcommit
  cases step with
  | bootstrap outages => cases hcommit
  | sync outages sources now =>
    rw [Step.commit?] at hcommit
    rcases Engine.sync_cases site.engine sources now (site.cloud.withOutages outages) with
      ⟨hfail, -⟩ | ⟨planned, hplan, hsync⟩
    · split at hcommit
      · rename_i hok
        exact absurd hok hfail
      · cases hcommit
    · have houtcome : ((Step.sync outages sources now).cycle site).outcome = .ok () :=
        congrArg Cycle.outcome hsync
      have hset : (site.next (.sync outages sources now)).engine.resources =
          (Engine.resourcesAfter site.engine.context now (site.cloud.withOutages outages)
            planned).filter Engine.isKept :=
        congrArg (fun cycle => cycle.engine.resources) hsync
      rw [houtcome] at hcommit
      obtain rfl := Option.some.inj hcommit
      rw [Step.stoppages, hplan]
      dsimp only
      rw [hset]
      exact Engine.filterMap_failure?_resourcesAfter _ _ _ _

/-- No step is hindered while every batch passes. -/
theorem unhindered_of_passable (hp : Engine.Passable site.cloud site.engine.context.maxTargets)
    (step : Step) : step.Unhindered site := by
  refine ⟨recorded_next site step, fun fault hf => ?_, hp⟩
  cases step with
  | bootstrap outages => cases hf
  | sync outages sources now =>
    rw [Step.stoppages] at hf
    split at hf
    · -- outages do not change the limit of the service
      have hp' : Engine.Passable (site.cloud.withOutages outages) site.engine.context.maxTargets :=
        hp.of_limit_eq rfl
      exact (Engine.ordinary_of_mem_stoppages hp' _ fault hf).isBatching_eq
    · cases hf

end Site

/-- Numbers for which not every list can be cut fail on a single item already. -/
theorem exists_batching_fault {α : Type} (item : α) {limit : Int}
    (h : ¬ (0 < limit ∧ limit.toNat < Nat.pow 2 vanishingPower)) :
    ∃ fault, groupsForLimit [item] limit = .error fault ∧ fault.isBatching = true := by
  by_cases hl : 0 < limit
  · have hv : Nat.pow 2 vanishingPower ≤ limit.toNat := by
      apply Nat.not_lt.mp
      exact fun hv => h ⟨hl, hv⟩
    refine ⟨.groupCount 0, groupsForLimit_eq_error (List.cons_ne_nil _ _) hl ?_, rfl⟩
    rwa [List.length_singleton, Nat.one_mul]
  · exact ⟨.callLimit limit, if_pos (Int.not_lt.mp hl), rfl⟩

namespace Shop

theorem check_roomy (most : Int) : (roomy most).engine.context.check = .ok () := by
  have hstart : start.engine.context.check = .ok () := by decide +kernel
  exact hstart

/-- If the node of the small cluster cannot be put into a batch, that stops its first cycle. -/
theorem stoppages_roomy {most : Int} {fault : Fault}
    (hf : groupsForLimit [Document.string "i-1"] most = .error fault) :
    (sync [] [ingress] [service]).stoppages (roomy most) = [fault] := by
  have halign : Engine.alignment [] [.string "i-1"] = .ok ⟨[.string "i-1"], []⟩ := by
    decide +kernel
  have hstop : Engine.stoppage? (roomy most).engine.context ((roomy most).cloud.withOutages [])
      planned = some fault :=
    Engine.stoppage?_of_uncut rfl rfl rfl rfl halign (List.cons_ne_nil _ _) hf
  have hplan : Engine.plan (roomy most).engine.context (sources [ingress] [service])
      (roomy most).engine.resources = .ok [planned] := plan_roomy most
  rw [sync, Step.stoppages, hplan]
  dsimp only
  rw [Engine.stoppages, hstop]
  rfl

end Shop

namespace Site

/-- Exactly with a number of targets per call that is positive and below the power of two at which
quotients vanish does no step of any run record a failure of its batches, with an engine whose
settings are accepted and a service that allows as many targets in a call. -/
theorem unhindered_iff {most : Int} :
    (∀ (site : Site) (steps : List Step) (step : Step), site.engine.context.check = .ok () →
      site.engine.context.maxTargets = most → site.cloud.Allows most →
      step.Unhindered (site.run steps)) ↔
    0 < most ∧ most.toNat < Nat.pow 2 vanishingPower := by
  constructor
  · -- with any other number the small cluster cannot register its node
    intro hall
    by_contra hn
    obtain ⟨fault, hf, hbatching⟩ := exists_batching_fault (Document.string "i-1") hn
    have hfree := (hall (Shop.roomy most) [] (Shop.sync [] [Shop.ingress] [Shop.service])
      (Shop.check_roomy most) rfl (Cloud.allows_of_limit rfl le_rfl)).free fault
    rw [run_nil, Shop.stoppages_roomy hf] at hfree
    rw [hfree List.mem_cons_self] at hbatching
    cases hbatching
  · rintro ⟨hpos, hv⟩ site steps step - hmost ha
    subst hmost
    apply unhindered_of_passable
    simpa using (Engine.passable_of_allows ha hpos hv).of_limit_eq (limit_run site steps)

end Site

namespace Shop

/-- The cycle after one in which the registration of the targets failed. -/
theorem unhindered_after_outage :
    start.engine.context.check = .ok () ∧ start.cloud.Allows 20 ∧
      (start.run [sync [registrationFails] [ingress] [service]]).engine.resources.map
        Engine.failure? = [some "down"] ∧
      (sync [] [ingress] [service]).Unhindered
        (start.run [sync [registrationFails] [ingress] [service]]) := by
  have hv : (20 : Int).toNat < Nat.pow 2 vanishingPower := lt_pow_vanishingPower (by decide)
  have hallows : start.cloud.Allows 20 := Cloud.allows_of_limit rfl le_rfl
  refine ⟨check_roomy 20, hallows, by decide +kernel, ?_⟩
  exact Site.unhindered_iff.mpr ⟨by decide, hv⟩ start _ _ (check_roomy 20) rfl hallows

/-- An engine that may put no target into a call is accepted. Its first cycle creates the load
balancer of the small cluster, which gets no targets, and records that no batch can be cut. -/
theorem hindered_at_zero :
    (roomy 0).engine.context.check = .ok () ∧ (roomy 0).cloud.Allows 0 ∧
      (sync [] [ingress] [service]).stoppages (roomy 0) = [.callLimit 0] ∧
      ((roomy 0).next (sync [] [ingress] [service])).engine.resources.map Engine.failure? =
        [some "max_per_call must be positive, got 0"] ∧
      ((roomy 0).next (sync [] [ingress] [service])).cloud.targets.map Prod.snd = [[]] ∧
      ¬ (sync [] [ingress] [service]).Unhindered (roomy 0) := by
  have hstop : (sync [] [ingress] [service]).stoppages (roomy 0) = [.callLimit 0] :=
    stoppages_roomy rfl
  refine ⟨check_roomy 0, Cloud.allows_of_limit rfl le_rfl, hstop, by decide +kernel,
    by decide +kernel, fun h => ?_⟩
  have hfree := h.free (.callLimit 0) (by rw [hstop]; exact List.mem_cons_self)
  cases hfree

end Shop

end IngressControl
