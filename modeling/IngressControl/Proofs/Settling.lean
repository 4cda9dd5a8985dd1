import IngressControl.Proofs.Alignment
import IngressControl.Proofs.Fitting

/-! Reconciling a plan while no call fails. Every resource that is not tainted is settled: what it
wants is there, or what it does not want any more is gone, and nothing later in the plan undoes
that. -/

namespace IngressControl
open scoped List
open Document (Texts)

namespace Engine

structure Fits (spec : DesiredSpec) (h : Handle) : Prop where
  attributes : spec.needsUpdate h = .ok false
  instances : ∀ d, d ∈ h.instances ↔ d ∈ spec.instances

section Resources

variable {context : Context} {cloud : Cloud} {spec : DesiredSpec} {h : Handle}

/-- On a service that is ready, a creation succeeds and fits the specification. -/
theorem applyCreate_of_ready (hr : Ready cloud context.maxTargets) (hw : Texts spec.instances)
    (owner : Owner) :
    ∃ h' name cloud', applyCreate context cloud owner spec = ⟨.ok .created, some h', name, cloud'⟩ ∧
      Ready cloud' context.maxTargets ∧ Fits spec h' := by
  unfold applyCreate
  cases hc : cloud.create (nameOfKey context.clusterName owner.key) (attributes spec)
      (tags context owner) with
  | mk outcome cloud₁ =>
    rcases Cloud.create_cases hc with ⟨hnot, -⟩ | ⟨rfl, hs, hcalm⟩
    · exact absurd hr.calm hnot
    · have hr₁ : Ready cloud₁ context.maxTargets := hr.effect (hcalm hr.calm) hs rfl
      obtain ⟨changed, h', cloud', halign, hr', hbare, hmem⟩ :=
        alignTargets_of_ready (h := cloud.made (nameOfKey context.clusterName owner.key)
          (attributes spec) (tags context owner)) hr₁ Texts.nil hw
      refine ⟨h', _, cloud', by simp only [hc, halign]; rfl, hr', ?_, hmem⟩
      rw [spec.needsUpdate_of_bare hbare]
      exact spec.needsUpdate_change _

/-- On a service that is ready, an update of a load balancer that is there succeeds and fits. -/
theorem applyUpdate_of_ready (hr : Ready cloud context.maxTargets) (hw : Texts spec.instances)
    (ht : h.Typed) (hi : Texts h.instances)
    (hb : ∃ b, Ledger.get? h.arn cloud.balancers = some b) :
    ∃ status h' name cloud',
      applyUpdate context cloud h spec = ⟨.ok status, some h', name, cloud'⟩ ∧
      (status = .modified ∨ status = .ready) ∧ Ready cloud' context.maxTargets ∧ Fits spec h' := by
  have hstatus (updated changed : Bool) :
      (if updated || changed then Status.modified else .ready) = .modified ∨
        (if updated || changed then Status.modified else .ready) = .ready := by
    cases updated <;> cases changed <;> simp
  obtain ⟨needed, hneeded⟩ := spec.exists_needsUpdate ht
  unfold applyUpdate applyAttributes
  cases needed with
  | false =>
    obtain ⟨changed, h', cloud', halign, hr', hbare, hmem⟩ := alignTargets_of_ready hr hi hw
    refine ⟨_, h', _, cloud', by simp only [hneeded, halign]; rfl, hstatus false changed, hr', ?_,
      hmem⟩
    rw [spec.needsUpdate_of_bare hbare, hneeded]
  | true =>
    cases hc : cloud.update h (attributes spec) with
    | mk outcome cloud₁ =>
      rcases Cloud.update_cases hc with ⟨hnone, -⟩ | ⟨b, -, rfl, hs, hcalm⟩
      · -- without outages a change fails only if the load balancer is not there
        obtain ⟨b, hb⟩ := hb
        rw [hnone hr.calm] at hb
        cases hb
      · have hr₁ : Ready cloud₁ context.maxTargets := hr.effect (hcalm hr.calm) hs rfl
        obtain ⟨changed, h', cloud', halign, hr', hbare, hmem⟩ :=
          alignTargets_of_ready
            (h := { (attributes spec).change b with instances := h.instances }) hr₁ hi hw
        refine ⟨_, h', _, cloud', by simp only [hneeded, halign]; rfl, hstatus true changed, hr',
          ?_, hmem⟩
        rw [spec.needsUpdate_of_bare hbare]
        exact spec.needsUpdate_change b

theorem applyDelete_of_ready {most : Int} (hr : Ready cloud most) :
    ∃ cloud', applyDelete cloud h = ⟨.ok .deleted, none, h.name, cloud'⟩ ∧ Ready cloud' most ∧
      Ledger.get? h.arn cloud'.balancers = none := by
  unfold applyDelete
  cases hc : cloud.delete h with
  | mk outcome cloud' =>
    rcases Cloud.delete_cases hc with ⟨hnot, -⟩ | ⟨rfl, hs, hcalm⟩
    · exact absurd hr.calm hnot
    · exact ⟨cloud', rfl, hr.effect (hcalm hr.calm) hs rfl, by simp [Cloud.balancers_of_effect hs]⟩

end Resources

structure Settled (cloud : Cloud) (r r' : Resource) : Prop where
  untainted : r.tainted = false
  owner : r'.owner = r.owner
  desired : r'.desired = r.desired
  tainted : r'.tainted = false
  error : r'.error = none
  wanted : ∀ spec, r.desired = some spec →
    (r'.status = .created ∨ r'.status = .modified ∨ r'.status = .ready) ∧
      ∃ h, r'.handle = some h ∧ Fits spec h
  unwanted : r.desired = none → r'.status = .deleted ∧ r'.handle = none ∧
    ∀ h, r.handle = some h → Ledger.get? h.arn cloud.balancers = none

structure Workable (r : Resource) : Prop where
  texts : ∀ spec, r.desired = some spec → Texts spec.instances
  something : r.desired = none → ∃ h, r.handle = some h

/-- All load balancers of the service have attributes of the usual types. -/
def TypedBalancers (cloud : Cloud) : Prop :=
  ∀ arn b, Ledger.get? arn cloud.balancers = some b → b.Typed

section Cycle

variable {context : Context} {now : Moment} {cloud : Cloud}

theorem reconcile_of_outcome (now : Moment) {r : Resource} (ht : r.tainted = false)
    {status : Status} {handle : Option Handle} {name : Document} {cloud' : Cloud}
    (ha : apply context cloud r = ⟨.ok status, handle, name, cloud'⟩) :
    (reconcile context now cloud r).cloud = cloud' ∧
      (reconcile context now cloud r).resource =
        { r with handle := handle, error := none, status := status,
                 lastReconciled := some now } := by
  have hnot : ¬ r.tainted = true := by simp [ht]
  rw [reconcile, if_neg hnot, ha]
  exact ⟨rfl, rfl⟩

/-- A resource that wants a spec is settled once its calls leave a handle that fits. -/
theorem settled_of_fits (now : Moment) {r : Resource} (ht : r.tainted = false) {spec : DesiredSpec}
    (hd : r.desired = some spec) {status : Status} {h : Handle} {name : Document} {cloud' : Cloud}
    (ha : apply context cloud r = ⟨.ok status, some h, name, cloud'⟩)
    (hstatus : status = .created ∨ status = .modified ∨ status = .ready) (hfits : Fits spec h) :
    Settled (reconcile context now cloud r).cloud r (reconcile context now cloud r).resource := by
  obtain ⟨hcloud, hres⟩ := reconcile_of_outcome now ht ha
  rw [hcloud, hres]
  refine ⟨ht, rfl, rfl, ht, rfl, ?_, ?_⟩
  · intro spec' hs
    have hsame : spec' = spec := Option.some.inj (hs.symm.trans hd)
    exact ⟨hstatus, h, rfl, hsame ▸ hfits⟩
  · intro hs
    rw [hd] at hs
    cases hs

/-- A resource that wants nothing is settled once its load balancer is gone. -/
theorem settled_of_gone (now : Moment) {r : Resource} (ht : r.tainted = false)
    (hd : r.desired = none) {h : Handle} (hh : r.handle = some h) {name : Document} {cloud' : Cloud}
    (ha : apply context cloud r = ⟨.ok .deleted, none, name, cloud'⟩)
    (hgone : Ledger.get? h.arn cloud'.balancers = none) :
    Settled (reconcile context now cloud r).cloud r (reconcile context now cloud r).resource := by
  obtain ⟨hcloud, hres⟩ := reconcile_of_outcome now ht ha
  rw [hcloud, hres]
  refine ⟨ht, rfl, rfl, ht, rfl, ?_, ?_⟩
  · intro spec hs
    rw [hd] at hs
    cases hs
  · intro _
    refine ⟨rfl, rfl, ?_⟩
    intro h' hh'
    rw [hh] at hh'
    exact Option.some.inj hh' ▸ hgone

/-- On a service that is ready, the reconciliation of an untainted entry settles it. -/
theorem settled_reconcile (now : Moment) {r : Resource} {others : List Holding}
    (ht : r.tainted = false) (hw : Workable r) (hr : Ready cloud context.maxTargets)
    (hm : Mirrored cloud (held r.owner r.handle ++ others)) (htyped : TypedBalancers cloud) :
    Settled (reconcile context now cloud r).cloud r (reconcile context now cloud r).resource ∧
      Ready (reconcile context now cloud r).cloud context.maxTargets := by
  have hready {status : Status} {handle : Option Handle} {name : Document} {cloud' : Cloud}
      (ha : apply context cloud r = ⟨.ok status, handle, name, cloud'⟩)
      (hr' : Ready cloud' context.maxTargets) :
      Ready (reconcile context now cloud r).cloud context.maxTargets := by
    rw [(reconcile_of_outcome now ht ha).1]
    exact hr'
  cases hd : r.desired with
  | some spec =>
    cases hh : r.handle with
    | none =>
      obtain ⟨h', name, cloud', hcreate, hr', hfits⟩ :=
        applyCreate_of_ready hr (hw.texts spec hd) r.owner
      have ha : apply context cloud r = ⟨.ok .created, some h', name, cloud'⟩ := by
        simp only [apply, hd, hh, hcreate]
      exact ⟨settled_of_fits now ht hd ha (Or.inl rfl) hfits, hready ha hr'⟩
    | some h =>
      rw [hh] at hm
      obtain ⟨b, hb, hbare⟩ := hm.first
      obtain ⟨targets, hg, hmem⟩ := hm.mirrors ⟨r.owner, h⟩ List.mem_cons_self
      have hi : Texts h.instances := (hm.texts _ _ hg).mono fun d hd => (hmem d).mp hd
      obtain ⟨status, h', name, cloud', hupdate, hstatus, hr', hfits⟩ :=
        applyUpdate_of_ready hr (hw.texts spec hd) ((htyped _ b hb).of_bare hbare.symm) hi ⟨b, hb⟩
      have ha : apply context cloud r = ⟨.ok status, some h', name, cloud'⟩ := by
        simp only [apply, hd, hh, hupdate]
      exact ⟨settled_of_fits now ht hd ha (Or.inr hstatus) hfits, hready ha hr'⟩
  | none =>
    obtain ⟨h, hh⟩ := hw.something hd
    obtain ⟨cloud', hdelete, hr', hgone⟩ := applyDelete_of_ready (h := h) hr
    have ha : apply context cloud r = ⟨.ok .deleted, none, h.name, cloud'⟩ := by
      simp only [apply, hd, hh, hdelete]
    exact ⟨settled_of_gone now ht hd hh ha hgone, hready ha hr'⟩

theorem Moves.mirrored {r : Resource} {a b : Stage} {others : List Holding}
    (hm : Moves context r a b) (hspec : ∀ spec, r.desired = some spec → Texts spec.instances)
    (hr : Mirrored a.cloud (held r.owner a.handle ++ others)) :
    Mirrored b.cloud (held r.owner b.handle ++ others) := by
  induction hm with
  | refl => exact hr
  | tail _ hmove ih => exact hmove.mirrored hspec ih

theorem Move.typedBalancers {r : Resource} {a b : Stage} (hm : Move context r a b)
    (ht : TypedBalancers a.cloud) : TypedBalancers b.cloud := by
  intro arn balancer hb
  rcases hm.balancer_cases hb with ⟨stored, hg, rfl | ⟨spec, rfl⟩⟩ | ⟨spec, -, rfl, -⟩
  · exact ht arn balancer hg
  · exact typed_change spec stored
  · exact typed_change spec _

theorem Moves.typedBalancers {r : Resource} {a b : Stage} (hm : Moves context r a b)
    (ht : TypedBalancers a.cloud) : TypedBalancers b.cloud := by
  induction hm with
  | refl => exact ht
  | tail _ hmove ih => exact hmove.typedBalancers ih

/-- What is gone stays gone while the rest of a plan is reconciled. -/
theorem Settled.cloudAfter {r r' : Resource} {cloud' : Cloud} {rest : ResourceSet}
    (hs : Settled cloud' r r') (hr : Recorded cloud' (holdings rest))
    (hn : ∀ h, r.handle = some h → h.arn ∉ arns (holdings rest) ∧ cloud'.Spent h.arn) :
    Settled (cloudAfter context now cloud' rest) r r' := by
  refine { hs with unwanted := fun hd => ?_ }
  obtain ⟨hstatus, hhandle, hgone⟩ := hs.unwanted hd
  refine ⟨hstatus, hhandle, fun h hh => ?_⟩
  obtain ⟨hout, hspent⟩ := hn h hh
  have hsame : Cloud.SameAt h.arn cloud' (Engine.cloudAfter context now cloud' rest) := by
    refine sameAt_cloudAfter hr.sound.filed hspent fun p hp _ hname => hout ?_
    obtain ⟨h', hh', he⟩ := Option.map_eq_some_iff.mp hname
    exact List.mem_map.mpr ⟨⟨p.owner, h'⟩, mem_holdings.mpr ⟨p, hp, rfl, hh'⟩, he⟩
  rw [hsame.balancer]
  exact hgone h hh

/-- Every resource of a plan is settled in the end, or tainted and left as it is. -/
def PlanSettled (context : Context) (now : Moment) (cloud : Cloud) (planned : ResourceSet) : Prop :=
  List.Forall₂ (fun r r' => r.tainted = true ∧ r' = r ∨
      Settled (cloudAfter context now cloud planned) r r')
    planned (resourcesAfter context now cloud planned)

/-- Without outages a plan is settled. -/
theorem planSettled (now : Moment) {planned : ResourceSet}
    (hw : ∀ r ∈ planned, r.tainted = false → Workable r) (hr : Ready cloud context.maxTargets)
    (hm : Mirrored cloud (holdings planned)) (htyped : TypedBalancers cloud) :
    PlanSettled context now cloud planned := by
  -- the mirror and the readiness hold again after each resource; the first one is settled in the
  -- cloud that it leaves, and framed through the rest of the plan
  induction planned generalizing cloud with
  | nil => exact .nil
  | cons r rest ih =>
    have hw' : ∀ r ∈ rest, r.tainted = false → Workable r :=
      fun r hr => hw r (List.mem_cons_of_mem _ hr)
    have hm : Mirrored cloud (held r.owner r.handle ++ holdings rest) := hm
    have hsub (handle : Option Handle) : holdings rest <+~ held r.owner handle ++ holdings rest :=
      (List.sublist_append_right _ _).subperm
    rw [PlanSettled, cloudAfter_cons, resourcesAfter_cons]
    cases ht : r.tainted with
    | true =>
      rw [reconcile_of_tainted ht]
      exact .cons (Or.inl ⟨ht, rfl⟩) (ih hw' hr (hm.subperm (hsub _)) htyped)
    | false =>
      have hwork := hw r List.mem_cons_self ht
      obtain ⟨hsettled, hready⟩ := settled_reconcile now ht hwork hr hm htyped
      have hmoves := reconcile_moves context now cloud r
      have hm' := (hmoves.mirrored hwork.texts hm).subperm (hsub _)
      refine .cons (Or.inr (hsettled.cloudAfter hm'.toRecorded fun h hh => ?_))
        (ih hw' hready hm' (hmoves.typedBalancers htyped))
      rw [hh] at hm
      obtain ⟨b, hb, -⟩ := hm.first
      have hspent := hm.fresh _ (Ledger.mem_keys_of_get? hb)
      exact ⟨(List.nodup_cons.mp hm.nodup).1, hmoves.spent hspent⟩

theorem Settled.status_ne {r r' : Resource} (hs : Settled cloud r r') : r'.status ≠ .failed := by
  cases hd : r.desired with
  | none =>
    rw [(hs.unwanted hd).1]
    decide
  | some spec =>
    rcases (hs.wanted spec hd).1 with h | h | h
    all_goals
      rw [h]
      decide

namespace PlanSettled

variable {planned : ResourceSet}

theorem exists_settled (h : PlanSettled context now cloud planned) {r : Resource}
    (hr : r ∈ planned) (ht : r.tainted = false) :
    ∃ r' ∈ resourcesAfter context now cloud planned,
      Settled (cloudAfter context now cloud planned) r r' := by
  obtain ⟨r', hr', ⟨ht', -⟩ | hs⟩ := exists_right_of_forall₂ h hr
  · rw [ht] at ht'
    cases ht'
  · exact ⟨r', hr', hs⟩

/-- A plan that is settled counts no error. -/
theorem countP_failed (h : PlanSettled context now cloud planned) :
    (reconcileAll context now cloud planned).countP Reconciled.failed = 0 := by
  apply List.countP_eq_zero.mpr
  intro done hdone
  have hmem : done.resource ∈ resourcesAfter context now cloud planned :=
    List.mem_map_of_mem hdone
  obtain ⟨r, -, ⟨ht, he⟩ | hs⟩ := exists_left_of_forall₂ h hmem
  · simp [Reconciled.failed, he, ht]
  · simp [Reconciled.failed, hs.status_ne]

/-- What a settled plan leaves in the set is declared. -/
theorem declared {sources : Sources} {previous : ResourceSet}
    (hplan : plan context sources previous = .ok planned)
    (h : PlanSettled context now cloud planned) {r' : Resource}
    (hr' : r' ∈ (resourcesAfter context now cloud planned).filter isKept) :
    Declared context sources r'.owner := by
  obtain ⟨hmem, hkept⟩ := List.mem_filter.mp hr'
  obtain ⟨r, hr, hrel⟩ := exists_left_of_forall₂ h hmem
  have howner : r'.owner = r.owner := by
    rcases hrel with ⟨-, rfl⟩ | hs
    · rfl
    · exact hs.owner
  rcases declared_or_left_over hplan hr with hd | ⟨hd, ht⟩
  · rwa [howner]
  · -- a left-over is settled by its deletion, and is not kept then
    rcases hrel with ⟨ht', -⟩ | hs
    · rw [ht] at ht'
      cases ht'
    · have hgone : r'.handle = none := (hs.unwanted hd).2.1
      simp [isKept, hs.tainted, hs.desired, hd, hgone] at hkept

end PlanSettled

end Cycle

end Engine

end IngressControl
