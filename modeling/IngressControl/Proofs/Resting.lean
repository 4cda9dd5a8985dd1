import IngressControl.Proofs.Settling
import IngressControl.Proofs.Shapes

/-! Resources at rest. A load balancer that is as its spec wants it needs no call, and neither does
a tainted one, so a plan of such resources leaves the cloud as it is. -/

namespace IngressControl
open Document (Texts SameSet)

/-- What a resource is to the outside: whose it is, whether it is tainted, and its load balancer. -/
def Resource.bearing (r : Resource) : Owner × Bool × Option Handle := (r.owner, r.tainted, r.handle)

namespace Engine

variable {context : Context} {cloud : Cloud}

theorem texts_of_sameSet {ds es : List Document} (h : SameSet ds es) (he : Texts es) :
    Texts ds := by
  intro d hd
  have hamong := h.1 d hd
  simp only [Document.isAmong, List.any_eq_true, Bool.or_eq_true, decide_eq_true_iff] at hamong
  obtain ⟨e, hmem, hs⟩ := hamong
  obtain ⟨s, rfl⟩ := he e hmem
  rcases hs with rfl | hs
  · exact ⟨s, rfl⟩
  · cases d with
    | string t => exact ⟨t, rfl⟩
    | _ => simp [Document.same, Document.quantity?] at hs

/-- Targets that are the wanted ones already need no call. -/
theorem alignTargets_of_sameSet (limit : Int) {h : Handle} {wanted : List Document}
    (hs : SameSet h.instances wanted) (hw : Texts wanted) :
    alignTargets limit cloud h wanted = ⟨.ok false, h, cloud⟩ := by
  have hi := texts_of_sameSet hs hw
  obtain ⟨a, ha, -⟩ := exists_alignment hi hw
  obtain ⟨-, -, -, -, hadd, hremove⟩ := alignment_of_ok ha
  have hmem := (Document.sameSet_iff hi.keys hw.keys).mp hs
  -- what is to be added is wanted and not there, which nothing is; likewise what is to be removed
  have hnone {ds : List Document} (h : ∀ e, e ∉ ds.map Document.element) : ds = [] :=
    List.map_eq_nil_iff.mp (List.eq_nil_iff_forall_not_mem.mpr h)
  have hadd : a.toAdd = [] := hnone fun e he => ((hadd e).mp he).2 ((hmem e).mpr ((hadd e).mp he).1)
  have hremove : a.toRemove = [] :=
    hnone fun e he => ((hremove e).mp he).2 ((hmem e).mp ((hremove e).mp he).1)
  have hnothing : a.isNothing = true := by simp [Alignment.isNothing, hadd, hremove]
  unfold alignTargets
  simp only [ha, if_pos hnothing]

theorem applyUpdate_of_satisfies {h : Handle} {spec : DesiredSpec} (hs : h.Satisfies spec)
    (hw : Texts spec.instances) :
    applyUpdate context cloud h spec = ⟨.ok .ready, some h, h.name, cloud⟩ := by
  simp only [applyUpdate, applyAttributes, hs.attributes,
    alignTargets_of_sameSet context.maxTargets hs.instances hw]
  rfl

/-- A resource that needs no call: it is tainted, or its load balancer is as it is wanted. -/
def AtRest (r : Resource) : Prop :=
  r.tainted = true ∨ ∃ spec h, r.desired = some spec ∧ r.handle = some h ∧ h.Satisfies spec ∧
    Texts spec.instances

theorem AtRest.reconcile {r : Resource} (h : AtRest r) (context : Context) (now : Moment)
    (cloud : Cloud) :
    (reconcile context now cloud r).cloud = cloud ∧
      (reconcile context now cloud r).resource.bearing = r.bearing ∧
      isKept (reconcile context now cloud r).resource = true ∧
      ((reconcile context now cloud r).resource.tainted = false →
        (reconcile context now cloud r).resource.status = .ready) := by
  cases ht : r.tainted with
  | true =>
    rw [reconcile_of_tainted ht]
    exact ⟨rfl, rfl, by simp [isKept, ht], fun hn => by rw [ht] at hn; cases hn⟩
  | false =>
    obtain htaint | ⟨spec, h, hd, hh, hs, hw⟩ := h
    · rw [ht] at htaint
      cases htaint
    · have ha : apply context cloud r = ⟨.ok .ready, some h, h.name, cloud⟩ := by
        simp only [apply, hd, hh, applyUpdate_of_satisfies hs hw]
      obtain ⟨hcloud, hres⟩ := reconcile_of_outcome now ht ha
      rw [hcloud, hres]
      exact ⟨rfl, by simp [Resource.bearing, hh], by simp [isKept, hd], fun _ => rfl⟩

/-- A plan of resources at rest makes no call and keeps them all. -/
theorem resourcesAfter_of_atRest {planned : ResourceSet} (h : ∀ r ∈ planned, AtRest r)
    (now : Moment) :
    cloudAfter context now cloud planned = cloud ∧
      ((resourcesAfter context now cloud planned).filter isKept).map Resource.bearing =
        planned.map Resource.bearing ∧
      ∀ r ∈ (resourcesAfter context now cloud planned).filter isKept, r.tainted = false →
        r.status = .ready := by
  induction planned with
  | nil =>
    refine ⟨rfl, rfl, fun r hr => ?_⟩
    cases hr
  | cons r rest ih =>
    obtain ⟨hcloud, hbearing, hkept, hready⟩ :=
      (h r List.mem_cons_self).reconcile context now cloud
    obtain ⟨hcloud', hbearing', hready'⟩ := ih fun r hr => h r (List.mem_cons_of_mem _ hr)
    rw [cloudAfter_cons, resourcesAfter_cons, hcloud, List.filter_cons_of_pos hkept, List.map_cons,
      List.map_cons, hbearing, hbearing']
    refine ⟨hcloud', rfl, fun r' hr' => ?_⟩
    rcases List.mem_cons.mp hr' with rfl | hr'
    · exact hready
    · exact hready' r' hr'

end Engine

end IngressControl
