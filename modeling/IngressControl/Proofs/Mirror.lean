import IngressControl.Proofs.Frames
import IngressControl.Proofs.Runs

/-! The set of the engine as a mirror of the cloud. Wherever calls fail, every handle that is
committed describes its load balancer as the cloud has it, and has the targets that the cloud has
for it. -/

namespace IngressControl
open scoped List
open Document (Texts)

namespace Cloud

def TextTargets (cloud : Cloud) : Prop :=
  ∀ arn targets, Ledger.get? arn cloud.targets = some targets → Texts targets

/-- The instances of a handle are the targets of its load balancer. -/
def Mirrors (cloud : Cloud) (h : Handle) : Prop :=
  ∃ targets, Ledger.get? h.arn cloud.targets = some targets ∧ ∀ d, d ∈ h.instances ↔ d ∈ targets

theorem textTargets_of_store {cloud stored : Cloud} (hs : cloud.store = stored)
    (ht : stored.TextTargets) : cloud.TextTargets := by
  subst hs
  exact ht

theorem mirrors_of_store {cloud stored : Cloud} {h : Handle} (hs : cloud.store = stored)
    (hm : stored.Mirrors h) : cloud.Mirrors h := by
  subst hs
  exact hm

theorem TextTargets.put {cloud cloud' : Cloud} (ht : cloud.TextTargets) {arn : String}
    {targets : List Document} (htexts : Texts targets)
    (he : cloud'.targets = Ledger.put arn targets cloud.targets) : cloud'.TextTargets := by
  intro key ts hg
  rw [he] at hg
  rcases Ledger.get?_put_eq_some_iff.mp hg with ⟨-, rfl⟩ | ⟨-, hg⟩
  · exact htexts
  · exact ht key ts hg

theorem TextTargets.getD {cloud : Cloud} (ht : cloud.TextTargets) (arn : String) :
    Texts ((Ledger.get? arn cloud.targets).getD []) := by
  cases hg : Ledger.get? arn cloud.targets with
  | none => exact Texts.nil
  | some targets => exact ht arn targets hg

theorem TextTargets.withoutBalancer {cloud : Cloud} (ht : cloud.TextTargets) (arn : String) :
    (cloud.withoutBalancer arn).TextTargets :=
  fun key ts hg => ht key ts (Ledger.get?_erase_eq_some_iff.mp hg).2

/-- After targets were changed a handle mirrors them, if its new instances are those. -/
theorem mirrors_withTargets {cloud : Cloud} {h h' : Handle}
    {change : List Document → List Document} {targets : List Document}
    (hg : Ledger.get? h.arn cloud.targets = some targets) (ha : h'.arn = h.arn)
    (hd : ∀ d, d ∈ h'.instances ↔ d ∈ change targets) :
    (cloud.withTargets h.arn change).Mirrors h' :=
  ⟨change targets, by simp [ha, hg], hd⟩

end Cloud

structure Mirrored (cloud : Cloud) (hs : List Holding) : Prop extends Recorded cloud hs where
  texts : cloud.TextTargets
  mirrors : ∀ x ∈ hs, cloud.Mirrors x.handle

theorem Mirrored.subperm {cloud : Cloud} {hs hs' : List Holding} (hsub : hs' <+~ hs)
    (hm : Mirrored cloud hs) : Mirrored cloud hs' where
  toRecorded := hm.toRecorded.subperm hsub
  texts := hm.texts
  mirrors x hx := hm.mirrors x (hsub.subset hx)

theorem Mirrored.of_store {cloud cloud' : Cloud} {hs : List Holding}
    (he : cloud'.store = cloud.store) (hm : Mirrored cloud hs) : Mirrored cloud' hs where
  toRecorded := hm.toRecorded.of_store_eq he
  texts := Cloud.textTargets_of_store he hm.texts
  mirrors x hx := Cloud.mirrors_of_store he (hm.mirrors x hx)

namespace Engine

theorem mem_follow {h : Handle} {ds : List Document} (hd : Texts ds) {d : Document} :
    d ∈ (follow h ds).instances ↔ d ∈ ds := by
  obtain ⟨sorted, hs, hmem⟩ := exists_sortedSet hd
  rw [follow, hs]
  exact hmem d

variable {context : Context} {r : Resource} {a b : Stage} {others : List Holding}

/-- Moves register nothing but wanted instances, so the targets stay texts. -/
theorem Move.textTargets (hm : Move context r a b)
    (hspec : ∀ spec, r.desired = some spec → Texts spec.instances) (ht : a.cloud.TextTargets) :
    b.cloud.TextTargets := by
  have hstore : a.cloud.store.TextTargets := ht
  cases hm with
  | refused hs => exact Cloud.textTargets_of_store hs hstore
  | create spec hd hs => exact Cloud.textTargets_of_store hs (hstore.put Texts.nil rfl)
  | update spec hd hb hs => exact Cloud.textTargets_of_store hs hstore
  | delete hd hs => exact Cloud.textTargets_of_store hs (hstore.withoutBalancer _)
  | register spec batch hd hb hs =>
    refine Cloud.textTargets_of_store hs (hstore.put ?_ rfl)
    exact ((hstore.getD _).append ((hspec spec hd).mono hb)).mono fun d hd =>
      List.mem_append.mpr (Cloud.mem_of_mem_join hd)
  | deregister batch hs =>
    refine Cloud.textTargets_of_store hs (hstore.put ?_ rfl)
    exact (hstore.getD _).mono fun d hd => (List.mem_filter.mp hd).1

/-- What a move leaves the engine with mirrors the cloud, if what it came with did. -/
theorem Move.mirrors_own (hm : Move context r a b)
    (hspec : ∀ spec, r.desired = some spec → Texts spec.instances)
    (hr : Mirrored a.cloud (held r.owner a.handle ++ others)) :
    ∀ x ∈ held r.owner b.handle, b.cloud.Mirrors x.handle := by
  cases hm with
  | refused hs =>
    exact fun x hx => Cloud.mirrors_of_store hs (hr.mirrors x (List.mem_append_left _ hx))
  | create spec hd hs =>
    intro x hx
    obtain rfl := List.mem_singleton.mp hx
    exact Cloud.mirrors_of_store hs ⟨[], by simp, fun d => Iff.rfl⟩
  | update spec hd hb hs =>
    intro x hx
    obtain rfl := List.mem_singleton.mp hx
    obtain ⟨targets, hg, hmem⟩ := hr.mirrors _ List.mem_cons_self
    exact Cloud.mirrors_of_store hs ⟨targets, hr.sound.arn hb ▸ hg, hmem⟩
  | delete hd hs => exact fun x hx => absurd hx List.not_mem_nil
  | @register cloud _ h spec batch hd hb hs =>
    intro x hx
    obtain rfl := List.mem_singleton.mp hx
    obtain ⟨targets, hg, hmem⟩ := hr.mirrors _ List.mem_cons_self
    -- the engine appends and sorts, the cloud joins; on texts both are the union
    have hbatch : Texts batch := (hspec spec hd).mono hb
    have hinstances : Texts h.instances := (hr.texts _ _ hg).mono fun d hd => (hmem d).mp hd
    refine Cloud.mirrors_of_store hs (Cloud.mirrors_withTargets hg (follow_arn _ _) fun d => ?_)
    rw [mem_follow (hinstances.append hbatch), Cloud.mem_join hbatch, List.mem_append, hmem]
  | @deregister cloud _ h batch hs =>
    intro x hx
    obtain rfl := List.mem_singleton.mp hx
    obtain ⟨targets, hg, hmem⟩ := hr.mirrors _ List.mem_cons_self
    have hinstances : Texts h.instances := (hr.texts _ _ hg).mono fun d hd => (hmem d).mp hd
    have hkept : Texts (without h.instances batch) := hinstances.mono fun d hd =>
      (List.mem_filter.mp hd).1
    refine Cloud.mirrors_of_store hs (Cloud.mirrors_withTargets hg (follow_arn _ _) fun d => ?_)
    rw [mem_follow hkept, mem_without hinstances, Cloud.mem_leave (hr.texts _ _ hg), hmem]

/-- A move keeps the held load balancers mirrored. -/
theorem Move.mirrored (hm : Move context r a b)
    (hspec : ∀ spec, r.desired = some spec → Texts spec.instances)
    (hr : Mirrored a.cloud (held r.owner a.handle ++ others)) :
    Mirrored b.cloud (held r.owner b.handle ++ others) where
  toRecorded := hm.recorded hr.toRecorded
  texts := hm.textTargets hspec hr.texts
  mirrors x hx := by
    rcases List.mem_append.mp hx with hx | hx
    · exact hm.mirrors_own hspec hr x hx
    · -- the other load balancers are not touched by the move
      obtain ⟨targets, hg, hmem⟩ := hr.mirrors x (List.mem_append_right _ hx)
      exact ⟨targets, (hm.frame_others hr.toRecorded hx).targets.trans hg, hmem⟩

end Engine

theorem Discovery.mirrored_finds {cloud : Cloud} {cluster : String} {found : ResourceSet}
    (hr : Recorded cloud (holdings found)) (ht : cloud.TextTargets)
    (h : List.Forall₂ (Discovery.Finds cloud) (cloud.ofCluster cluster) found) :
    Mirrored cloud (holdings found) where
  toRecorded := hr
  texts := ht
  mirrors x hx := by
    obtain ⟨b, -, ha⟩ := exists_adopts h x hx
    obtain ⟨targets, hg, hp⟩ := ha.targets
    exact ⟨targets, ha.arn ▸ hg, fun d => hp.mem_iff⟩

namespace Site

variable {site : Site} {steps : List Step} {step : Step}

/-- A step that sees nodes with texts keeps the mirror. -/
theorem mirrored_next (hn : step.TextNodes)
    (hm : Mirrored site.cloud (holdings site.engine.resources)) :
    Mirrored (site.next step).cloud (holdings (site.next step).engine.resources) := by
  cases step with
  | bootstrap outages =>
    have hm := hm.of_store (site.cloud.store_withOutages outages)
    obtain ⟨hstore, ⟨-, he⟩ | ⟨-, -, -, hf⟩⟩ := Engine.bootstrap_cases site.engine hm.sound
    · have hkept : (site.next (.bootstrap outages)).engine = site.engine := he
      rw [hkept]
      exact hm.of_store hstore
    · have hr := Discovery.recorded_finds hm.sound hm.fresh hf
      exact (Discovery.mirrored_finds hr hm.texts hf).of_store hstore
  | sync outages sources now =>
    have hm := hm.of_store (site.cloud.store_withOutages outages)
    refine Engine.sync_induction now (fun _ _ _ hp hm => hm.subperm hp.symm.subperm) hm
      (fun _ hplan => hm.subperm (Engine.holdings_plan_subperm hplan)) ?_
    intro planned hplan r hr htainted a b others hmove hm
    obtain ⟨instances, hlisted, hspec⟩ := Engine.instances_of_mem_plan hplan
    refine hmove.mirrored (fun spec hs => ?_) hm
    rw [hspec r hr htainted spec hs]
    exact hn instances hlisted

/-- Every run from the start keeps the held load balancers mirrored. -/
theorem Initial.mirrored_run (hi : site.Initial) (ht : site.cloud.TextTargets)
    (hn : ∀ step ∈ steps, step.TextNodes) :
    Mirrored (site.run steps).cloud (holdings (site.run steps).engine.resources) := by
  induction steps using List.reverseRecOn with
  | nil => exact ⟨hi.consistent.recorded, ht, by simp [run_nil, hi.empty, holdings]⟩
  | append_singleton steps step ih =>
    simpa using mirrored_next (hn step (by simp)) (ih fun s hs => hn s (by simp [hs]))

end Site

structure Site.Mirror (site : Site) : Prop where
  described : ∀ r ∈ site.engine.resources, ∀ h, r.handle = some h →
    ∃ b, Ledger.get? h.arn site.cloud.balancers = some b ∧ { b with instances := h.instances } = h
  /-- The instances of a handle are the targets of its load balancer. -/
  targets : ∀ r ∈ site.engine.resources, ∀ h, r.handle = some h →
    ∃ targets, Ledger.get? h.arn site.cloud.targets = some targets ∧
      ∀ d, d ∈ h.instances ↔ d ∈ targets
  apart : site.engine.resources.Pairwise fun r r' =>
    ∀ h h', r.handle = some h → r'.handle = some h' → h.arn ≠ h'.arn

theorem Mirrored.mirror {site : Site} (hm : Mirrored site.cloud (holdings site.engine.resources)) :
    site.Mirror where
  described r hr h hh := by
    obtain ⟨b, hb, hbare⟩ := hm.known ⟨r.owner, h⟩ (mem_holdings.mpr ⟨r, hr, rfl, hh⟩)
    refine ⟨b, hb, ?_⟩
    have heq := congrArg (fun bare : Handle => { bare with instances := h.instances }) hbare
    exact heq
  targets r hr h hh := hm.mirrors ⟨r.owner, h⟩ (mem_holdings.mpr ⟨r, hr, rfl, hh⟩)
  apart := pairwise_of_nodup_arns hm.nodup

/-- In a run that starts with nothing committed and sees nodes with texts as instances, the
committed set is a mirror of the cloud after every step, whichever calls fail. -/
theorem Site.mirror_run {site : Site} (hi : site.Initial) (ht : site.cloud.TextTargets)
    {steps : List Step} (hn : ∀ step ∈ steps, step.TextNodes) : (site.run steps).Mirror :=
  (hi.mirrored_run ht hn).mirror

/-- The mirror after a cycle in which the registration of the targets fails. -/
theorem Shop.mirror_after_outage :
    (holdings (start.run
        [sync [registrationFails] [ingress] [service]]).engine.resources).length = 1 ∧
      (start.run [sync [registrationFails] [ingress] [service]]).Mirror := by
  refine ⟨by decide +kernel, Site.mirror_run initial_start nofun fun step hs => ?_⟩
  obtain rfl := List.mem_singleton.mp hs
  exact textNodes_sync _ _ _

end IngressControl
