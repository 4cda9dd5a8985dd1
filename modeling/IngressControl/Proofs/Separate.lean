import IngressControl.Proofs.Deletions
import IngressControl.Proofs.Frames

/-! Committed sets of any origin. What keeps the load balancers of an engine apart is only that its
handles have different names and that the service does not give these names again; nothing that an
engine does brings two of them together, whatever the service holds under the names. -/

namespace IngressControl
open scoped List

/-- The handles have different names, which the service is not going to give to others. -/
structure Separate (cloud : Cloud) (hs : List Holding) : Prop where
  filed : cloud.Filed
  nodup : (arns hs).Nodup
  spent : ∀ x ∈ hs, cloud.Spent x.handle.arn

theorem Recorded.separate {cloud : Cloud} {hs : List Holding} (hr : Recorded cloud hs) :
    Separate cloud hs where
  filed := hr.sound.filed
  nodup := hr.nodup
  spent x hx := by
    obtain ⟨b, hb, -⟩ := hr.known x hx
    exact hr.fresh _ (Ledger.mem_keys_of_get? hb)

namespace Separate

variable {cloud cloud' : Cloud} {hs hs' : List Holding}

theorem subperm (hsub : hs' <+~ hs) (h : Separate cloud hs) : Separate cloud hs' where
  filed := h.filed
  nodup := by
    obtain ⟨mid, hperm, hmid⟩ := hsub
    exact (hperm.map _).nodup_iff.mp (h.nodup.sublist (hmid.map _))
  spent x hx := h.spent x (hsub.subset hx)

theorem of_store (he : cloud'.store = cloud.store) (h : Separate cloud hs) :
    Separate cloud' hs := by
  have hstore : Separate cloud.store hs := ⟨h.filed, h.nodup, h.spent⟩
  rw [← he] at hstore
  exact ⟨hstore.filed, hstore.nodup, hstore.spent⟩

theorem unshared {set : ResourceSet} (h : Separate cloud (holdings set)) : set.Unshared :=
  pairwise_of_nodup_arns h.nodup

/-- A name belongs to one resource only. -/
theorem eq_of_arn {set : ResourceSet} (h : Separate cloud (holdings set)) {r r' : Resource}
    (hr : r ∈ set) (hr' : r' ∈ set) {arn : String} (ha : r.handle.map Handle.arn = some arn)
    (ha' : r'.handle.map Handle.arn = some arn) : r = r' := by
  obtain ⟨handle, hh, rfl⟩ := Option.map_eq_some_iff.mp ha
  obtain ⟨handle', hh', he⟩ := Option.map_eq_some_iff.mp ha'
  by_contra hne
  exact h.unshared.forall_ne hr hr' hne handle handle' hh hh' he.symm

theorem spent_of_mem {set : ResourceSet} (h : Separate cloud (holdings set)) {r : Resource}
    (hr : r ∈ set) {handle : Handle} (hh : r.handle = some handle) : cloud.Spent handle.arn :=
  h.spent ⟨r.owner, handle⟩ (mem_holdings.mpr ⟨r, hr, rfl, hh⟩)

/-- No other resource of a set has the load balancer of a resource. -/
theorem arn_ne {set : ResourceSet} (h : Separate cloud (holdings set)) {r r' : Resource}
    (hr : r ∈ set) (hr' : r' ∈ set) (ho : r'.owner ≠ r.owner) {handle : Handle}
    (hh : r.handle = some handle) : r'.handle.map Handle.arn ≠ some handle.arn := by
  intro ha
  rw [h.eq_of_arn hr' hr ha (by rw [hh]; rfl)] at ho
  exact ho rfl

end Separate

namespace Engine

variable {context : Context} {now : Moment} {r : Resource} {a b : Stage} {others : List Holding}
  {cloud : Cloud}

/-- A move keeps the load balancers of an engine apart. -/
theorem Move.separate (hm : Move context r a b)
    (hs : Separate a.cloud (held r.owner a.handle ++ others)) :
    Separate b.cloud (held r.owner b.handle ++ others) := by
  have hothers : Separate a.cloud others :=
    hs.subperm (List.sublist_append_right _ _).subperm
  have hspent : ∀ x ∈ others, b.cloud.Spent x.handle.arn :=
    fun x hx => hm.spent (hothers.spent x hx)
  refine ⟨hm.filed hs.filed, ?_, fun x hx => ?_⟩
  · cases hb : b.handle with
    | none => exact hothers.nodup
    | some h' =>
      -- a new name is none of the others', since theirs are spent
      refine List.nodup_cons.mpr ⟨fun hmem => ?_, hothers.nodup⟩
      obtain ⟨x, hx, he⟩ := List.mem_map.mp hmem
      rcases hm.handle_arn hs.filed hb with ⟨h, ha, hname⟩ | ⟨hnew, -⟩
      · -- the name is still that of the handle, which no other one had
        have hnodup := hs.nodup
        rw [ha] at hnodup
        refine (List.nodup_cons.mp hnodup).1 (List.mem_map.mpr ⟨x, hx, ?_⟩)
        exact he.trans hname
      · have hold := hothers.spent x hx
        rw [he] at hold
        exact hnew hold
  · rcases List.mem_append.mp hx with hx | hx
    · obtain ⟨h', hb, rfl⟩ := Option.map_eq_some_iff.mp (Option.mem_toList.mp hx)
      rcases hm.handle_arn hs.filed hb with ⟨h, ha, hname⟩ | ⟨-, hnew⟩
      · have hold := hs.spent ⟨r.owner, h⟩ (List.mem_append_left _ (by simp [held, ha]))
        rw [← hname] at hold
        exact hm.spent hold
      · exact hnew
    · exact hspent x hx

theorem Moves.separate (hm : Moves context r a b)
    (hs : Separate a.cloud (held r.owner a.handle ++ others)) :
    Separate b.cloud (held r.owner b.handle ++ others) := by
  induction hm with
  | refl => exact hs
  | tail _ hmove ih => exact hmove.separate ih

/-- While the first resources of a plan are reconciled, those to come stay apart. -/
theorem separate_rest {before rest : ResourceSet}
    (hs : Separate cloud (holdings (before ++ rest))) :
    Separate (cloudAfter context now cloud before) (holdings rest) := by
  induction before generalizing cloud with
  | nil => exact hs
  | cons r before ih =>
    have hfirst : Separate cloud (held r.owner r.handle ++ holdings (before ++ rest)) := hs
    rw [cloudAfter_cons]
    refine ih (((reconcile_moves context now cloud r).separate hfirst).subperm ?_)
    exact (List.sublist_append_right _ _).subperm

end Engine

namespace Step

def IsCycle : Step → Prop
  | bootstrap _ => False
  | sync _ _ _ => True

end Step

namespace Site

variable {site : Site} {steps : List Step} {step : Step}

/-- A committed set of any origin: its owners are different, and so are its load balancers. -/
structure Regular (site : Site) : Prop where
  distinct : site.engine.resources.Distinct
  separate : Separate site.cloud (holdings site.engine.resources)

theorem Consistent.regular (h : site.Consistent) : site.Regular := ⟨h.distinct, h.recorded.separate⟩

/-- Every cycle keeps a site regular. -/
theorem Regular.next (h : site.Regular) (hc : step.IsCycle) : (site.next step).Regular := by
  cases step with
  | bootstrap outages => cases hc
  | sync outages sources now =>
    have hs := h.separate.of_store (site.cloud.store_withOutages outages)
    refine ⟨Engine.distinct_sync h.distinct sources now _, ?_⟩
    exact Engine.sync_induction now (fun _ _ _ hp hs => hs.subperm hp.symm.subperm) hs
      (fun _ hplan => hs.subperm (Engine.holdings_plan_subperm hplan))
      (fun _ _ _ _ _ _ _ _ hm hs => hm.separate hs)

theorem Regular.run (h : site.Regular) (hc : ∀ step ∈ steps, step.IsCycle) :
    (site.run steps).Regular := by
  induction steps using List.reverseRecOn with
  | nil => exact h
  | append_singleton steps step ih =>
    simpa using (ih fun s hs => hc s (by simp [hs])).next (hc step (by simp))

end Site

end IngressControl
