import IngressControl.Proofs.Mirror
import IngressControl.Proofs.Tracking

/-! Whom the tags of load balancers name. Every load balancer of the cluster carries the tags of an
ingress, and the engine has it for that ingress; so two load balancers for one ingress are there
only if the engine gave one of them up, and without that a new engine finds its way back. -/

namespace IngressControl
open scoped List

structure Identity.Named (id : Identity) : Prop where
  ns : id.ns ≠ ""
  name : id.name ≠ ""

namespace Engine

theorem named_of_owner? {context : Context} {ingress : Document} {id : Identity}
    (h : owner? context ingress = some id) : id.Named := by
  have hid : Ingress.identity ingress = .ok id := by
    unfold owner? at h
    split at h
    · cases hi : Ingress.identity ingress with
      | error fault => rw [hi] at h; cases h
      | ok id' =>
        rw [hi] at h
        rw [Option.some.inj h]
    · cases h
  unfold Ingress.identity at hid
  dsimp only at hid
  split at hid
  · split at hid
    · cases hid
    · rename_i name _ hempty
      have hname : name ≠ "" := by simpa using hempty
      split at hid
      · obtain rfl := Except.ok.inj hid
        have hdefault : Ingress.defaultNamespace ≠ "" := by decide
        exact ⟨hdefault, hname⟩
      · rename_i hns
        split at hid
        · rename_i ns hstring
          obtain rfl := Except.ok.inj hid
          rw [hstring] at hns
          exact ⟨by simpa [Document.isVoid] using hns, hname⟩
        · cases hid
  · cases hid

variable {context : Context} {id : Identity} {b : Handle}

theorem tag_of_tags (ht : b.tags = tags context (.ingress id)) :
    b.tag namespaceTag = .string id.ns ∧ b.tag ingressTag = .string id.name := by
  constructor
  · rw [Handle.tag, ht]
    rfl
  · rw [Handle.tag, ht]
    rfl

/-- The owner is read back from the tags of the engine. -/
theorem owner_of_tags (ht : b.tags = tags context (.ingress id)) : b.owner = .ingress id := by
  rw [Handle.owner, (tag_of_tags ht).1, (tag_of_tags ht).2]
  rfl

theorem identified_of_tags (hn : id.Named) (ht : b.tags = tags context (.ingress id)) :
    Discovery.Identified b := by
  rw [Discovery.Identified, (tag_of_tags ht).1, (tag_of_tags ht).2]
  simp [Document.isVoid, hn.ns, hn.name]

end Engine

structure Labelled (context : Context) (cloud : Cloud) (hs : List Holding) : Prop where
  balancers : ∀ arn b, Ledger.get? arn cloud.balancers = some b →
    Cloud.belongsTo context.clusterName b = true →
      ∃ id : Identity, id.Named ∧ b.tags = Engine.tags context (.ingress id)
  holdings : ∀ x ∈ hs, ∃ id : Identity, id.Named ∧ x.owner = .ingress id ∧
    x.handle.tags = Engine.tags context (.ingress id)

namespace Labelled

variable {context : Context} {cloud cloud' : Cloud} {hs hs' : List Holding}

theorem subset (hsub : ∀ x ∈ hs', x ∈ hs) (hl : Labelled context cloud hs) :
    Labelled context cloud hs' := ⟨hl.balancers, fun x hx => hl.holdings x (hsub x hx)⟩

theorem of_store (he : cloud'.store = cloud.store) (hl : Labelled context cloud hs) :
    Labelled context cloud' hs :=
  ⟨fun arn b hb hc => hl.balancers arn b (Cloud.balancers_of_store he ▸ hb) hc, hl.holdings⟩

end Labelled

namespace Engine

variable {context : Context} {r : Resource} {a b : Stage} {others : List Holding}

/-- A load balancer has the tags that it had before a move, or was created for the resource. -/
theorem Move.balancer_tags (hm : Move context r a b) {arn : String} {balancer : Handle}
    (hb : Ledger.get? arn b.cloud.balancers = some balancer) :
    (∃ stored, Ledger.get? arn a.cloud.balancers = some stored ∧ balancer.tags = stored.tags) ∨
      ∃ spec, r.desired = some spec ∧ balancer.tags = tags context r.owner := by
  rcases hm.balancer_cases hb with ⟨stored, hg, rfl | ⟨spec, rfl⟩⟩ | ⟨spec, hd, rfl, -⟩
  · exact Or.inl ⟨balancer, hg, rfl⟩
  · exact Or.inl ⟨stored, hg, rfl⟩
  · exact Or.inr ⟨spec, hd, rfl⟩

/-- A handle keeps its tags in a move, or is new and has those of its owner. -/
theorem Move.handle_tags (hm : Move context r a b)
    (hr : Recorded a.cloud (held r.owner a.handle ++ others)) {h' : Handle}
    (hh : b.handle = some h') :
    (∃ h, a.handle = some h ∧ h'.tags = h.tags) ∨
      ∃ spec, r.desired = some spec ∧ h'.tags = tags context r.owner := by
  cases hm with
  | refused hs => exact Or.inl ⟨h', hh, rfl⟩
  | create spec hd hs =>
    obtain rfl := Option.some.inj hh
    exact Or.inr ⟨spec, hd, rfl⟩
  | @update cloud cloud' h stored spec hd hg hs =>
    obtain rfl := Option.some.inj hh
    obtain ⟨known, hknown, hbare⟩ := hr.first
    obtain rfl := Option.some.inj (hg.symm.trans hknown)
    have htags := Handle.tags_of_bare hbare
    exact Or.inl ⟨h, rfl, htags⟩
  | delete hd hs => cases hh
  | register spec batch hd hsub hs =>
    obtain rfl := Option.some.inj hh
    exact Or.inl ⟨_, rfl, follow_tags _ _⟩
  | deregister batch hs =>
    obtain rfl := Option.some.inj hh
    exact Or.inl ⟨_, rfl, follow_tags _ _⟩

/-- Moves create load balancers for ingresses only, and change no tags. -/
theorem Move.labelled (hm : Move context r a b)
    (howner : ∀ spec, r.desired = some spec → ∃ id : Identity, id.Named ∧ r.owner = .ingress id)
    (hr : Recorded a.cloud (held r.owner a.handle ++ others))
    (hl : Labelled context a.cloud (held r.owner a.handle ++ others)) :
    Labelled context b.cloud (held r.owner b.handle ++ others) := by
  refine ⟨fun arn balancer hb hc => ?_, fun x hx => ?_⟩
  · rcases hm.balancer_tags hb with ⟨stored, hg, ht⟩ | ⟨spec, hd, ht⟩
    · rw [ht]
      refine hl.balancers arn stored hg ?_
      rwa [Cloud.belongsTo, ← ht]
    · obtain ⟨id, hnamed, ho⟩ := howner spec hd
      exact ⟨id, hnamed, ho ▸ ht⟩
  · rcases List.mem_append.mp hx with hx | hx
    · obtain ⟨h', hh, rfl⟩ := Option.map_eq_some_iff.mp (Option.mem_toList.mp hx)
      rcases hm.handle_tags hr hh with ⟨h, ha, ht⟩ | ⟨spec, hd, ht⟩
      · obtain ⟨id, hnamed, ho, hold⟩ := hl.holdings ⟨r.owner, h⟩
          (List.mem_append_left _ (by simp [held, ha]))
        exact ⟨id, hnamed, ho, ht.trans hold⟩
      · obtain ⟨id, hnamed, ho⟩ := howner spec hd
        exact ⟨id, hnamed, ho, ho ▸ ht⟩
    · exact hl.holdings x (List.mem_append_right _ hx)

end Engine

namespace Site

variable {site : Site} {steps : List Step} {step : Step}

theorem labelled_next (hc : site.Consistent)
    (hl : Labelled site.engine.context site.cloud (holdings site.engine.resources)) :
    Labelled site.engine.context (site.next step).cloud
      (holdings (site.next step).engine.resources) := by
  cases step with
  | bootstrap outages =>
    have hr := hc.recorded.of_store_eq (site.cloud.store_withOutages outages)
    have hl := hl.of_store (site.cloud.store_withOutages outages)
    obtain ⟨hstore, ⟨-, he⟩ | ⟨-, -, -, hf⟩⟩ := Engine.bootstrap_cases site.engine hr.sound
    · have hkept : (site.next (.bootstrap outages)).engine = site.engine := he
      rw [hkept]
      exact hl.of_store hstore
    · refine ⟨fun arn b hb hcl => ?_, fun x hx => ?_⟩
      · exact hl.balancers arn b (Cloud.balancers_of_store hstore ▸ hb) hcl
      · obtain ⟨b, hb, ha⟩ := Discovery.exists_adopts hf x hx
        obtain ⟨id, hnamed, ht⟩ := hl.balancers b.arn b (hr.sound.get?_of_mem_ofCluster hb)
          (Cloud.mem_ofCluster.mp hb).2
        refine ⟨id, hnamed, ha.owner.trans (Engine.owner_of_tags ht), ?_⟩
        exact (Handle.tags_of_bare ha.bare).trans ht
  | sync outages sources now =>
    have hr := hc.recorded.of_store_eq (site.cloud.store_withOutages outages)
    have hl := hl.of_store (site.cloud.store_withOutages outages)
    refine Engine.recorded_sync_induction now hr
      (fun _ _ _ hp h => h.subset fun x => hp.mem_iff.mpr) hl (fun planned hplan => ?_) ?_
    · have hsub := Engine.holdings_plan_subperm hplan
      exact hl.subset fun x hx => hsub.subset hx
    · -- what is created is created for an ingress that the cycle lists
      intro planned hplan r hmem ht a b others hm hr hl
      refine hm.labelled (fun spec hs => ?_) hr hl
      obtain ⟨ingress, id, ho, howner⟩ := Engine.owner_of_mem_plan hplan hmem hs
      exact ⟨id, Engine.named_of_owner? ho, howner⟩

/-- In a run from the start, every load balancer of the cluster has the tags of an identity. -/
theorem Initial.labelled_run (hi : site.Initial)
    (hnone : site.cloud.ofCluster site.engine.context.clusterName = []) (steps : List Step) :
    Labelled site.engine.context (site.run steps).cloud
      (holdings (site.run steps).engine.resources) := by
  induction steps using List.reverseRecOn with
  | nil =>
    refine ⟨fun arn b hb hcl => ?_, by simp [run_nil, hi.empty, holdings]⟩
    have hmem : b ∈ site.cloud.ofCluster site.engine.context.clusterName :=
      Cloud.mem_ofCluster.mpr ⟨⟨arn, Ledger.mem_of_get? hb⟩, hcl⟩
    rw [hnone] at hmem
    exact absurd hmem List.not_mem_nil
  | append_singleton steps step ih =>
    rw [run_append_singleton]
    rw [← context_run site steps] at ih ⊢
    exact labelled_next (hi.consistent_run steps) ih

theorem exists_resource (hr : Recorded site.cloud (holdings site.engine.resources))
    (hl : Labelled site.engine.context site.cloud (holdings site.engine.resources)) {b : Handle}
    (hb : Ledger.get? b.arn site.cloud.balancers = some b)
    (hm : b.arn ∈ arns (holdings site.engine.resources)) :
    ∃ r ∈ site.engine.resources, r.handle.map Handle.arn = some b.arn ∧
      ∃ id : Identity, r.owner = .ingress id ∧
        b.tags = Engine.tags site.engine.context (.ingress id) := by
  obtain ⟨x, hx, hname⟩ := List.mem_map.mp hm
  obtain ⟨id, -, ho, ht⟩ := hl.holdings x hx
  obtain ⟨stored, hstored, hbare⟩ := hr.known x hx
  rw [hname, hb] at hstored
  obtain rfl := Option.some.inj hstored
  obtain ⟨r, hmem, howner, hh⟩ := mem_holdings.mp hx
  have htags := (Handle.tags_of_bare hbare).trans ht
  exact ⟨r, hmem, by rw [hh, ← hname]; rfl, id, howner.trans ho, htags⟩

/-- The engine has at most one load balancer for what two tags name. -/
theorem arn_eq_of_same_tags (hc : site.Consistent)
    (hl : Labelled site.engine.context site.cloud (holdings site.engine.resources)) {b b' : Handle}
    (hb : Ledger.get? b.arn site.cloud.balancers = some b)
    (hb' : Ledger.get? b'.arn site.cloud.balancers = some b')
    (hm : b.arn ∈ arns (holdings site.engine.resources))
    (hm' : b'.arn ∈ arns (holdings site.engine.resources))
    (hns : b.tag namespaceTag = b'.tag namespaceTag)
    (hname : b.tag ingressTag = b'.tag ingressTag) :
    b.arn = b'.arn := by
  obtain ⟨r, hr, harn, id, ho, ht⟩ := exists_resource hc.recorded hl hb hm
  obtain ⟨r', hr', harn', id', ho', ht'⟩ := exists_resource hc.recorded hl hb' hm'
  obtain ⟨htag, htag'⟩ := Engine.tag_of_tags ht
  obtain ⟨htag₂, htag₂'⟩ := Engine.tag_of_tags ht'
  have hid : id' = id := by
    rw [htag, htag₂] at hns
    rw [htag', htag₂'] at hname
    cases id
    cases id'
    simp_all
  rw [hid] at ho'
  have hsame : r = r' := Option.some.inj
    ((Engine.find?_of_mem hc.distinct hr ho).symm.trans (Engine.find?_of_mem hc.distinct hr' ho'))
  rw [hsame, harn'] at harn
  exact (Option.some.inj harn).symm

/-- Of two load balancers of the cluster for one ingress the engine gave one up. -/
theorem Initial.pairwise_abandoned (hi : site.Initial)
    (hnone : site.cloud.ofCluster site.engine.context.clusterName = []) (steps : List Step) :
    ((site.run steps).cloud.ofCluster site.engine.context.clusterName).Pairwise fun b b' =>
      b.tag namespaceTag = b'.tag namespaceTag → b.tag ingressTag = b'.tag ingressTag →
        site.Abandoned steps b.arn ∨ site.Abandoned steps b'.arn := by
  have hc := hi.consistent_run steps
  have hl := hi.labelled_run hnone steps
  rw [← context_run site steps] at hl
  have hsound := hc.recorded.sound
  have hnames := List.pairwise_map.mp
    (hsound.nodup_arns_ofCluster site.engine.context.clusterName)
  refine hnames.imp_of_mem fun {b b'} hb hb' hne hns hname => ?_
  have hg := hsound.get?_of_mem_ofCluster hb
  have hg' := hsound.get?_of_mem_ofCluster hb'
  -- what the engine did not give up it has, and it has only one for what the tags name
  rcases hi.tracked_run (Or.inl hnone) b.arn b hg (Cloud.mem_ofCluster.mp hb).2 with hm | ha
  · rcases hi.tracked_run (Or.inl hnone) b'.arn b' hg' (Cloud.mem_ofCluster.mp hb').2 with
      hm' | ha'
    · exact absurd (arn_eq_of_same_tags hc hl hg hg' hm hm' hns hname) hne
    · exact Or.inr ha'
  · exact Or.inl ha

theorem Initial.exists_identity (hi : site.Initial)
    (hnone : site.cloud.ofCluster site.engine.context.clusterName = []) {b : Handle}
    (hb : b ∈ (site.run steps).cloud.ofCluster site.engine.context.clusterName) :
    ∃ id : Identity, id.Named ∧ b.tags = Engine.tags site.engine.context (.ingress id) := by
  have hg := (hi.consistent_run steps).recorded.sound.get?_of_mem_ofCluster hb
  exact (hi.labelled_run hnone steps).balancers b.arn b hg (Cloud.mem_ofCluster.mp hb).2

/-- If the engine gave none of them up, the load balancers of the cluster have different owners. -/
theorem Initial.pairwise_owner (hi : site.Initial)
    (hnone : site.cloud.ofCluster site.engine.context.clusterName = [])
    (hkept : ∀ b ∈ (site.run steps).cloud.ofCluster site.engine.context.clusterName,
      ¬ site.Abandoned steps b.arn) :
    ((site.run steps).cloud.ofCluster site.engine.context.clusterName).Pairwise
      fun b b' => b.owner.same b'.owner = false := by
  refine (hi.pairwise_abandoned hnone steps).imp_of_mem fun {b b'} hb hb' hgone => ?_
  obtain ⟨id, -, ht⟩ := hi.exists_identity hnone hb
  obtain ⟨id', -, ht'⟩ := hi.exists_identity hnone hb'
  rw [Engine.owner_of_tags ht, Engine.owner_of_tags ht', ← Bool.not_eq_true, Owner.same_ingress]
  rintro rfl
  have hns := (Engine.tag_of_tags ht).1.trans (Engine.tag_of_tags ht').1.symm
  have hname := (Engine.tag_of_tags ht).2.trans (Engine.tag_of_tags ht').2.symm
  exact (hgone hns hname).elim (hkept b hb) (hkept b' hb')

/-- In a run that starts with nothing committed and no load balancer of the cluster, two load
balancers of the cluster name the same ingress only if the engine gave one of them up. If it gave up
none, an assembly never reports an ingress that is tagged twice, and with texts as instances it
succeeds. -/
theorem same_tags_abandoned (hi : site.Initial)
    (hnone : site.cloud.ofCluster site.engine.context.clusterName = []) (steps : List Step) :
    (((site.run steps).cloud.ofCluster site.engine.context.clusterName).Pairwise fun b b' =>
      b.tag namespaceTag = b'.tag namespaceTag → b.tag ingressTag = b'.tag ingressTag →
        site.Abandoned steps b.arn ∨ site.Abandoned steps b'.arn) ∧
    ((∀ b ∈ (site.run steps).cloud.ofCluster site.engine.context.clusterName,
        ¬ site.Abandoned steps b.arn) →
      (∀ outages first second key,
        (Discovery.assemble ((site.run steps).cloud.withOutages outages)
          site.engine.context.clusterName).1 ≠ .error (.doublyTagged first second key)) ∧
      (site.cloud.TextTargets → (∀ step ∈ steps, step.TextNodes) →
        ∃ found, (Discovery.assemble ((site.run steps).cloud.withOutages [])
          site.engine.context.clusterName).1 = .ok found)) := by
  refine ⟨hi.pairwise_abandoned hnone steps, fun hkept => ?_⟩
  have hsound := (hi.consistent_run steps).recorded.sound
  have hsound' (outages : List Outage) : ((site.run steps).cloud.withOutages outages).Sound :=
    hsound.of_store_eq (Cloud.store_withOutages _ _)
  have howners := hi.pairwise_owner hnone hkept
  refine ⟨fun outages => Discovery.assemble_ne_doublyTagged (hsound' outages) howners,
    fun htexts hnodes => ?_⟩
  have hm := hi.mirrored_run htexts hnodes
  refine Discovery.exists_assemble (hsound' []) rfl howners (fun b hb => ?_) (fun b hb => ?_)
  · obtain ⟨id, hnamed, ht⟩ := hi.exists_identity hnone hb
    exact Engine.identified_of_tags hnamed ht
  · -- the engine has this load balancer, so the cloud has targets for it
    have hg := hsound.get?_of_mem_ofCluster hb
    have hin := (hi.tracked_run (Or.inl hnone) b.arn b hg
      (Cloud.mem_ofCluster.mp hb).2).resolve_right (hkept b hb)
    obtain ⟨x, hx, hname⟩ := List.mem_map.mp hin
    obtain ⟨targets, ht⟩ := Option.isSome_iff_exists.mp (hm.targeted x hx)
    exact ⟨targets, hname ▸ ht, hm.texts _ targets ht⟩

end Site

namespace Shop

/-- An ingress whose service goes, which goes itself, and which comes back with its service. -/
def comeback : List Step :=
  [sync [] [ingress] [service], sync [] [ingress] [], sync [] [] [], sync [] [ingress] [service]]

/-- Nodes whose instance is first a number and then a text. -/
def renumbered : List Step :=
  [.sync [] ⟨.objects [ingress], .objects [service],
      .objects [.object [("spec", .object [("externalID", .int 1)])]]⟩ default,
    sync [] [ingress] [service]]

/-- Both load balancers are there after the comeback, so one of them was given up; after the first
cycle alone an assembly succeeds. -/
theorem same_tags_after_comeback :
    (((start.run comeback).cloud.ofCluster "shop").length = 2 ∧
      ((start.run comeback).cloud.ofCluster "shop").Pairwise fun b b' =>
        b.tag namespaceTag = b'.tag namespaceTag → b.tag ingressTag = b'.tag ingressTag →
          start.Abandoned comeback b.arn ∨ start.Abandoned comeback b'.arn) ∧
    ∃ found, (Discovery.assemble
      ((start.run [sync [] [ingress] [service]]).cloud.withOutages []) "shop").1 = .ok found := by
  refine ⟨⟨by decide +kernel, (Site.same_tags_abandoned initial_start rfl comeback).1⟩, ?_⟩
  refine ((Site.same_tags_abandoned initial_start rfl
    [sync [] [ingress] [service]]).2 ?_).2 nofun ?_
  · rintro b - ⟨before, step, after, hsplit, habandons⟩
    cases before with
    | nil =>
      obtain ⟨rfl, rfl⟩ := List.cons.inj hsplit
      obtain ⟨-, r, hr, -⟩ := habandons
      exact absurd hr List.not_mem_nil
    | cons first rest => simp at hsplit
  · intro step hs
    obtain rfl := List.mem_singleton.mp hs
    exact textNodes_sync _ _ _

/-- The clause on load balancers that were given up is needed: the ingress that came back has a
second one, and an assembly reports it. So is the one on texts: an assembly cannot sort a number and
a text. -/
theorem doubly_tagged_after_comeback :
    ((start.run comeback).cloud.ofCluster "shop").map Handle.tags =
        [Engine.tags start.engine.context (.ingress ⟨"default", "web"⟩),
          Engine.tags start.engine.context (.ingress ⟨"default", "web"⟩)] ∧
      (Discovery.assemble (start.run comeback).cloud "shop").1 =
        .error (.doublyTagged "shop-f067a42af6a398f89214" "shop-f067a42af6a398f89214"
          "default/web") ∧
      (Discovery.assemble (start.run renumbered).cloud "shop").1 =
        .error (.assembly 1 1 (.noOrder "<" .string .int)) := by
  decide +kernel

end Shop

end IngressControl
