import IngressControl.Proofs.Fitting
import IngressControl.Proofs.Runs
import IngressControl.Proofs.Targets

/-! The shapes of what a cycle commits. Wherever the calls of a cycle fail and whatever was
committed before, its resources are tainted, settled or failed, and what is settled is as it is
wanted. -/

namespace IngressControl
open Document (SameSet)

/-- A load balancer is as a spec wants it, as far as its handle tells. -/
structure Handle.Satisfies (h : Handle) (spec : DesiredSpec) : Prop where
  attributes : spec.needsUpdate h = .ok false
  instances : SameSet h.instances spec.instances

inductive Shape
  | tainted
  | settled
  | failed
deriving DecidableEq

/-- Whether a resource that a cycle with some sources committed has a shape. -/
def Shape.Fits (context : Context) (sources : Sources) (r : Resource) : Shape → Prop
  | tainted => r.tainted = true ∧ r.status = .tainted ∧ r.error.isSome ∧
      Engine.Declared context sources r.owner
  | settled => r.tainted = false ∧
      (r.status = .created ∨ r.status = .modified ∨ r.status = .ready) ∧ r.error = none ∧
      ∃ spec h, r.desired = some spec ∧ r.handle = some h ∧ h.Satisfies spec
  | failed => r.tainted = false ∧ r.status = .failed ∧ r.error.isSome ∧
      (r.desired.isSome ∨ r.handle.isSome)

/-- No entry has two shapes. -/
theorem Shape.eq_of_fits {context : Context} {sources : Sources} {r : Resource} {a b : Shape}
    (ha : a.Fits context sources r) (hb : b.Fits context sources r) : a = b := by
  cases a <;> cases b <;> simp_all [Shape.Fits]

namespace Engine

/-- A resource whose load balancer should have been deleted: it was there before, it was not tainted
and nothing declares it any more, and the reason of the failure is that of the call. -/
def FailedDeletion (context : Context) (sources : Sources) (previous : ResourceSet)
    (r : Resource) : Prop :=
  r.status = .failed ∧ r.handle.isSome ∧ (∃ reason, r.error = some (Fault.outage reason).message) ∧
    ∃ p ∈ previous, p.owner = r.owner ∧ p.handle = r.handle ∧ p.tainted = false ∧
      ¬ Declared context sources p.owner

section Resources

variable {context : Context} {cloud cloud' : Cloud} {spec : DesiredSpec} {h : Handle}

theorem satisfies_of_aligned {limit : Int} {progress : Progress Bool} {changed : Bool}
    (hn : spec.needsUpdate h = .ok false)
    (hp : alignTargets limit cloud h spec.instances = progress)
    (hok : progress.outcome = .ok changed) : progress.handle.Satisfies spec := by
  obtain ⟨hbare, hwanted, hkeys, hmem⟩ := alignTargets_of_ok hp hok
  refine ⟨?_, (Document.sameSet_iff hkeys hwanted).mpr hmem⟩
  rw [spec.needsUpdate_of_bare hbare, hn]

/-- A creation that succeeds leaves a handle that satisfies the specification. -/
theorem applyCreate_of_ok {owner : Owner} {status : Status}
    (hok : (applyCreate context cloud owner spec).outcome = .ok status) :
    status = .created ∧
      ∃ h, (applyCreate context cloud owner spec).handle = some h ∧ h.Satisfies spec := by
  unfold applyCreate at hok ⊢
  cases hc : cloud.create (nameOfKey context.clusterName owner.key) (attributes spec)
      (tags context owner) with
  | mk outcome cloud₁ =>
    rcases Cloud.create_cases hc with ⟨-, ⟨fault, rfl⟩, -⟩ | ⟨rfl, -, -⟩
    · simp only [hc] at hok
      cases hok
    · simp only [hc] at hok ⊢
      obtain ⟨changed, haligned, rfl⟩ := map_eq_ok hok
      exact ⟨rfl, _, rfl, satisfies_of_aligned (spec.needsUpdate_change _) rfl haligned⟩

theorem applyAttributes_of_ok {current : Handle} {updated : Bool}
    (hok : applyAttributes cloud h spec = (.ok (current, updated), cloud')) :
    spec.needsUpdate current = .ok false := by
  unfold applyAttributes at hok
  split at hok
  · cases hok
  · rename_i hn
    cases hok
    exact hn
  · cases hc : cloud.update h (attributes spec) with
    | mk outcome cloud₁ =>
      rcases Cloud.update_cases hc with ⟨-, ⟨fault, rfl⟩, -⟩ | ⟨balancer, -, rfl, -, -⟩
      · rw [hc] at hok
        cases hok
      · rw [hc] at hok
        cases hok
        exact spec.needsUpdate_change balancer

/-- An update that succeeds leaves a handle that satisfies the specification. -/
theorem applyUpdate_of_ok {status : Status}
    (hok : (applyUpdate context cloud h spec).outcome = .ok status) :
    (status = .modified ∨ status = .ready) ∧
      ∃ h', (applyUpdate context cloud h spec).handle = some h' ∧ h'.Satisfies spec := by
  unfold applyUpdate at hok ⊢
  cases ha : applyAttributes cloud h spec with
  | mk outcome cloud₁ =>
    cases outcome with
    | error fault =>
      simp only [ha] at hok
      cases hok
    | ok result =>
      obtain ⟨current, updated⟩ := result
      simp only [ha] at hok ⊢
      obtain ⟨changed, haligned, rfl⟩ := map_eq_ok hok
      refine ⟨?_, _, rfl, satisfies_of_aligned (applyAttributes_of_ok ha) rfl haligned⟩
      cases updated <;> cases changed <;> simp

/-- A deletion fails only if its call does, and then the handle stays. -/
theorem applyDelete_cases (cloud : Cloud) (h : Handle) :
    (applyDelete cloud h).handle = none ∧ (applyDelete cloud h).outcome = .ok .deleted ∨
      (applyDelete cloud h).handle = some h ∧
        ∃ reason, (applyDelete cloud h).outcome = .error (.outage reason) := by
  unfold applyDelete
  cases hc : cloud.delete h with
  | mk outcome cloud₁ =>
    rcases Cloud.perform_cases hc with ⟨-, ⟨reason, rfl⟩, -⟩ | ⟨c, -, -, ha⟩
    · exact Or.inr ⟨rfl, reason, rfl⟩
    · obtain ⟨rfl, rfl⟩ := Prod.mk.inj ha
      exact Or.inl ⟨rfl, rfl⟩

/-- A deletion that fails keeps its handle, and only an outage makes it fail. -/
theorem apply_handle_of_error {r : Resource} {fault : Fault} (hd : r.desired = none)
    (he : (apply context cloud r).outcome = .error fault) :
    ∃ h, r.handle = some h ∧ (apply context cloud r).handle = some h ∧
      ∃ reason, fault = .outage reason := by
  cases hh : r.handle with
  | none =>
    simp only [apply, hd, hh] at he
    cases he
  | some h =>
    simp only [apply, hd, hh] at he ⊢
    rcases applyDelete_cases cloud h with ⟨-, hok⟩ | ⟨hkept, reason, hfault⟩
    · cases hok.symm.trans he
    · exact ⟨h, rfl, hkept, reason, Except.error.inj (he.symm.trans hfault)⟩

end Resources

section Cycle

variable {context : Context} {sources : Sources} {now : Moment} {cloud : Cloud}
  {previous planned : ResourceSet} {r r' : Resource}

/-- What stands in a plan: the tainted resources, those that want something, and those to be
deleted. -/
theorem mem_plan_cases (h : plan context sources previous = .ok planned) (hr : r ∈ planned) :
    (r.tainted = true ∧ r.status = .tainted ∧ r.error.isSome ∧ Declared context sources r.owner) ∨
      (r.tainted = false ∧ ∃ spec, r.desired = some spec) ∨
      ∃ p ∈ previous, p.tainted = false ∧ ¬ Declared context sources p.owner ∧
        p.handle.isSome ∧ r = p.stripDesired := by
  have hdeclared := declared_or_left_over h hr
  obtain ⟨ingresses, instances, hl, -, rfl⟩ := plan_cases h
  rcases List.mem_append.mp hr with hr | hr
  · obtain ⟨entry, -, rfl⟩ := List.mem_map.mp hr
    cases hs : Ingress.desiredSpec entry.2 (Service.nodePort sources.services) instances with
    | ok spec =>
      rw [resourceOf_of_ok hs]
      exact Or.inr (Or.inl ⟨rfl, spec, rfl⟩)
    | error fault =>
      have htainted : resourceOf sources.services instances previous entry.1 entry.2 =
          taintedResource entry.1 (previous.find? (.ingress entry.1)) fault := by
        rw [resourceOf, hs]
      rw [htainted] at hdeclared ⊢
      exact Or.inl ⟨rfl, rfl, rfl, hdeclared.resolve_right fun hn => by cases hn.2⟩
  · obtain ⟨p, hp, ho, rfl⟩ := mem_orphans.mp hr
    obtain ⟨ht, hn, hh⟩ := isOrphan_iff.mp ho
    rw [isSome_find?_declaredBy, ← declared_iff_of_list hl] at hn
    exact Or.inr (Or.inr ⟨p, hp, ht, hn, hh, rfl⟩)

theorem mem_resourcesAfter (h : r' ∈ resourcesAfter context now cloud planned) :
    ∃ r ∈ planned, ∃ cloud', (reconcile context now cloud' r).resource = r' := by
  induction planned generalizing cloud with
  | nil => cases h
  | cons first rest ih =>
    rw [resourcesAfter_cons] at h
    rcases List.mem_cons.mp h with rfl | h
    · exact ⟨first, List.mem_cons_self, cloud, rfl⟩
    · obtain ⟨r, hr, cloud', he⟩ := ih h
      exact ⟨r, List.mem_cons_of_mem _ hr, cloud', he⟩

/-- What is not tainted is after its reconciliation settled, failed, or has neither spec nor
handle. -/
theorem reconcile_cases (context : Context) (now : Moment) (cloud : Cloud)
    (ht : r.tainted = false) :
    (reconcile context now cloud r).resource.tainted = false ∧
      (reconcile context now cloud r).resource.desired = r.desired ∧
      (((reconcile context now cloud r).resource.error = none ∧
          (reconcile context now cloud r).resource.handle = (apply context cloud r).handle ∧
          (apply context cloud r).outcome =
            .ok (reconcile context now cloud r).resource.status) ∨
        ∃ fault, (reconcile context now cloud r).resource.error = some fault.message ∧
          (reconcile context now cloud r).resource.handle = (apply context cloud r).handle ∧
          (reconcile context now cloud r).resource.status = .failed ∧
          (apply context cloud r).outcome = .error fault) := by
  have hnot : ¬ r.tainted = true := by simp [ht]
  simp only [reconcile, if_neg hnot]
  cases ha : (apply context cloud r).outcome with
  | ok status => exact ⟨ht, rfl, Or.inl ⟨rfl, rfl, rfl⟩⟩
  | error fault => exact ⟨ht, rfl, Or.inr ⟨fault, rfl, rfl, rfl, rfl⟩⟩

/-- A wanted entry that is untainted is settled or failed after its reconciliation. -/
theorem fits_of_wanted (context : Context) (sources : Sources) (now : Moment) (cloud : Cloud)
    (ht : r.tainted = false) {spec : DesiredSpec} (hd : r.desired = some spec) :
    Shape.settled.Fits context sources (reconcile context now cloud r).resource ∨
      Shape.failed.Fits context sources (reconcile context now cloud r).resource := by
  obtain ⟨ht', hd', ⟨he, hh, hok⟩ | ⟨fault, he, hh, hstatus, -⟩⟩ :=
    reconcile_cases context now cloud ht
  · -- the calls succeeded, those of a creation or those of an update
    have happly : ((reconcile context now cloud r).resource.status = .created ∨
        (reconcile context now cloud r).resource.status = .modified ∨
        (reconcile context now cloud r).resource.status = .ready) ∧
          ∃ h, (apply context cloud r).handle = some h ∧ h.Satisfies spec := by
      cases hr : r.handle with
      | none =>
        simp only [apply, hd, hr] at hok ⊢
        obtain ⟨hstatus, hsat⟩ := applyCreate_of_ok hok
        exact ⟨Or.inl hstatus, hsat⟩
      | some h =>
        simp only [apply, hd, hr] at hok ⊢
        obtain ⟨hstatus, hsat⟩ := applyUpdate_of_ok hok
        exact ⟨Or.inr hstatus, hsat⟩
    obtain ⟨hstatus, h, hhandle, hsat⟩ := happly
    exact Or.inl ⟨ht', hstatus, he, spec, h, hd'.trans hd, hh.trans hhandle, hsat⟩
  · exact Or.inr ⟨ht', hstatus, by rw [he]; rfl, Or.inl (by rw [hd', hd]; rfl)⟩

/-- What is left of a resource that is to be deleted is kept only if its deletion failed. -/
theorem failedDeletion_of_kept {p : Resource} (hp : p ∈ previous) (ht : p.tainted = false)
    (hn : ¬ Declared context sources p.owner)
    (hk : isKept (reconcile context now cloud p.stripDesired).resource = true) :
    Shape.failed.Fits context sources (reconcile context now cloud p.stripDesired).resource ∧
      FailedDeletion context sources previous
        (reconcile context now cloud p.stripDesired).resource := by
  obtain ⟨ht', hd', hcases⟩ :=
    reconcile_cases (r := p.stripDesired) context now cloud rfl
  have howner := reconcile_owner context now cloud p.stripDesired
  have hnone : p.stripDesired.desired = none := rfl
  rcases hcases with ⟨-, hh, hok⟩ | ⟨fault, he, hh, hstatus, hfault⟩
  · -- a deletion that succeeds leaves nothing to keep
    exfalso
    have hgone : (apply context cloud p.stripDesired).handle = none := by
      cases hp : p.handle with
      | none => simp only [apply, Resource.stripDesired, hp]
      | some h =>
        simp only [apply, Resource.stripDesired, hp] at hok ⊢
        rcases applyDelete_cases cloud h with ⟨hgone, -⟩ | ⟨-, reason, hfault⟩
        · exact hgone
        · cases hok.symm.trans hfault
    simp [isKept, ht', hd', hh, hgone, hnone] at hk
  · -- one that fails leaves the handle, which is that of the previous resource
    obtain ⟨h, hp', hkept, reason, rfl⟩ := apply_handle_of_error hnone hfault
    have hhandle : (reconcile context now cloud p.stripDesired).resource.handle = some h :=
      hh.trans hkept
    have herror : (reconcile context now cloud p.stripDesired).resource.error.isSome := by
      rw [he]
      rfl
    have hsome : (reconcile context now cloud p.stripDesired).resource.handle.isSome := by
      rw [hhandle]
      rfl
    refine ⟨⟨ht', hstatus, herror, Or.inr hsome⟩, hstatus, hsome, ⟨reason, he⟩, p, hp, ?_, ?_, ht,
      hn⟩
    · exact howner.symm
    · exact Eq.trans hp' hhandle.symm

/-- What a plan becomes, as far as it is kept, has one of the shapes, and wants nothing only after a
failed deletion, unless it is tainted. -/
theorem shape_of_mem_commit (hplan : plan context sources previous = .ok planned)
    (hr : r' ∈ (resourcesAfter context now cloud planned).filter isKept) :
    (∃ shape : Shape, shape.Fits context sources r') ∧
      (r'.tainted = false → r'.desired = none →
        FailedDeletion context sources previous r') := by
  obtain ⟨hmem, hkept⟩ := List.mem_filter.mp hr
  obtain ⟨r, hplanned, cloud', rfl⟩ := mem_resourcesAfter hmem
  rcases mem_plan_cases hplan hplanned with ht | ⟨ht, spec, hd⟩ | ⟨p, hp, ht, hn, -, rfl⟩
  · rw [reconcile_of_tainted ht.1]
    exact ⟨⟨.tainted, ht⟩, fun hnot => by rw [ht.1] at hnot; cases hnot⟩
  · refine ⟨?_, fun _ hnone => ?_⟩
    · rcases fits_of_wanted context sources now cloud' ht hd with hs | hf
      · exact ⟨.settled, hs⟩
      · exact ⟨.failed, hf⟩
    · rw [(reconcile_cases context now cloud' ht).2.1, hd] at hnone
      cases hnone
  · obtain ⟨hfits, hdeletion⟩ := failedDeletion_of_kept hp ht hn hkept
    exact ⟨⟨.failed, hfits⟩, fun _ _ => hdeletion⟩

theorem distinct_bootstrap {engine : Engine} (hd : engine.resources.Distinct) (cloud : Cloud) :
    (engine.bootstrap cloud).engine.resources.Distinct := by
  unfold bootstrap
  split
  · exact hd
  · split
    · exact hd
    · -- an assembly that meets an owner twice fails, whatever the cloud holds
      rename_i found cloud' ha
      unfold Discovery.assemble at ha
      split at ha
      · cases ha
      · obtain ⟨hc, -⟩ := Prod.mk.inj ha
        exact (Discovery.conclude_eq_ok hc).2

end Cycle

end Engine

structure Committed (before : Engine) (sources : Sources) (after : ResourceSet) : Prop where
  distinct : after.Distinct
  shape : ∀ r ∈ after, ∃! shape : Shape, shape.Fits before.context sources r
  /-- What is not tainted and wants nothing has a handle that could not be deleted. -/
  unwanted : ∀ r ∈ after, r.tainted = false → r.desired = none →
    Engine.FailedDeletion before.context sources before.resources r
  empty : ∀ r ∈ after, r.desired = none → r.handle = none → r.tainted = true

/-- A commit of a planned set is a committed set. -/
theorem Engine.committed_commit {engine : Engine} (hd : engine.resources.Distinct)
    {sources : Sources} {planned : ResourceSet}
    (hplan : plan engine.context sources engine.resources = .ok planned) (now : Moment)
    (cloud : Cloud) :
    Committed engine sources (engine.commit now cloud planned).engine.resources where
  distinct := distinct_resourcesAfter (distinct_plan hd hplan) engine.context now cloud
  shape r hr := by
    obtain ⟨shape, hfits⟩ := (shape_of_mem_commit hplan hr).1
    exact ⟨shape, hfits, fun other hother => Shape.eq_of_fits hother hfits⟩
  unwanted r hr := (shape_of_mem_commit hplan hr).2
  empty r hr hdesired hhandle := by
    by_contra hnot
    have hdeletion := (shape_of_mem_commit hplan hr).2 (by simpa using hnot) hdesired
    have hsome := hdeletion.2.1
    rw [hhandle] at hsome
    cases hsome

namespace Site

variable {site : Site}

theorem distinct_next (hd : site.engine.resources.Distinct) (step : Step) :
    (site.next step).engine.resources.Distinct := by
  cases step with
  | bootstrap outages => exact Engine.distinct_bootstrap hd _
  | sync outages sources now => exact Engine.distinct_sync hd sources now _

theorem distinct_run (hd : site.engine.resources.Distinct) (steps : List Step) :
    (site.run steps).engine.resources.Distinct := by
  induction steps using List.reverseRecOn with
  | nil => exact hd
  | append_singleton steps step ih =>
    simpa using distinct_next ih step

end Site

namespace Shop

end Shop

end IngressControl
