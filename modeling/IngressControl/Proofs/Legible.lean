import IngressControl.Proofs.Tagging

/-! What can be read off a cloud. As long as the engine gives no load balancer up, the load
balancers of the cluster are those that it has: each is tagged for the owner that the engine has it
for, and no two for the same one. -/

namespace IngressControl
open scoped List

structure Tagged (context : Context) (x : Holding) : Prop where
  owner : x.handle.owner = x.owner
  identified : Discovery.Identified x.handle
  cluster : Cloud.belongsTo context.clusterName x.handle = true

theorem Tagged.of_tags {context : Context} {owner : Owner} {h h' : Handle}
    (ht : h'.tags = h.tags) (hx : Tagged context ⟨owner, h⟩) : Tagged context ⟨owner, h'⟩ where
  owner := by
    have howner : h.owner = owner := hx.owner
    rw [← howner, Handle.owner, Handle.tag, Handle.tag, ht]
    rfl
  identified := by
    have hid : Discovery.Identified h := hx.identified
    rw [Discovery.Identified, Handle.tag, Handle.tag, ht]
    exact hid
  cluster := by
    have hcluster : Cloud.belongsTo context.clusterName h = true := hx.cluster
    rw [Cloud.belongsTo, ht]
    exact hcluster

theorem Engine.tagged_of_tags {context : Context} {id : Identity} {h : Handle} (hn : id.Named)
    (ht : h.tags = tags context (.ingress id)) : Tagged context ⟨.ingress id, h⟩ where
  owner := owner_of_tags ht
  identified := identified_of_tags hn ht
  cluster := by
    change Cloud.belongsTo context.clusterName h = true
    rw [Cloud.belongsTo, ht]
    simp [tags, Ledger.get?, Document.same_string_iff]

/-- The load balancers of the cluster are those that the engine has, and they are tagged for
different owners. -/
structure Legible (context : Context) (cloud : Cloud) (hs : List Holding) : Prop where
  tracked : Tracked context.clusterName cloud hs (fun _ => False)
  tagged : ∀ x ∈ hs, Tagged context x
  apart : (cloud.ofCluster context.clusterName).Pairwise fun b b' => b.owner.same b'.owner = false

/-- Whom a load balancer is tagged for, if it is one of a cluster. -/
def Cloud.ownerIn? (cluster : String) (b : Handle) : Option Owner :=
  if belongsTo cluster b then some b.owner else none

theorem Cloud.map_owner_ofCluster (cloud : Cloud) (cluster : String) :
    (cloud.ofCluster cluster).map Handle.owner =
      (cloud.balancers.map Prod.snd).filterMap (ownerIn? cluster) := by
  rw [ofCluster]
  generalize cloud.balancers.map Prod.snd = bs
  induction bs with
  | nil => rfl
  | cons b rest ih => cases hb : belongsTo cluster b <;> simp [ownerIn?, hb, ih]

theorem Cloud.ownerIn?_of_tags {cluster : String} {b b' : Handle} (ht : b'.tags = b.tags) :
    ownerIn? cluster b' = ownerIn? cluster b := by
  have hb : belongsTo cluster b' = belongsTo cluster b := by rw [belongsTo, ht, belongsTo]
  have ho : b'.owner = b.owner := by simp only [Handle.owner, Handle.tag, ht]
  rw [ownerIn?, hb, ho, ownerIn?]

namespace Legible

variable {context : Context} {cloud cloud' : Cloud} {hs hs' : List Holding}

theorem of_store (he : cloud'.store = cloud.store) (hl : Legible context cloud hs) :
    Legible context cloud' hs where
  tracked := hl.tracked.of_store he
  tagged := hl.tagged
  apart := by
    rw [Cloud.ofCluster, Cloud.balancers_of_store he]
    exact hl.apart

theorem perm (hp : hs ~ hs') (hl : Legible context cloud hs) : Legible context cloud hs' where
  tracked := hl.tracked.perm hp
  tagged x hx := hl.tagged x (hp.mem_iff.mpr hx)
  apart := hl.apart

/-- The engine has every load balancer of the cluster, for the owner that the tags name. -/
theorem exists_holding (hr : Recorded cloud hs) (hl : Legible context cloud hs) {b : Handle}
    (hb : b ∈ cloud.ofCluster context.clusterName) :
    ∃ x ∈ hs, x.handle.bare = b.bare ∧ x.owner = b.owner := by
  have hg := hr.sound.get?_of_mem_ofCluster hb
  have hm := (hl.tracked b.arn b hg (Cloud.mem_ofCluster.mp hb).2).resolve_right id
  obtain ⟨x, hx, hname⟩ := List.mem_map.mp hm
  obtain ⟨stored, hstored, hbare⟩ := hr.known x hx
  rw [hname, hg] at hstored
  obtain rfl := Option.some.inj hstored
  have htags := Handle.tags_of_bare hbare
  have howner := ((hl.tagged x hx).of_tags htags).owner
  exact ⟨x, hx, hbare.symm, howner.symm⟩

/-- What the engine has is a load balancer of the cluster. -/
theorem exists_balancer (hr : Recorded cloud hs) (hl : Legible context cloud hs) {x : Holding}
    (hx : x ∈ hs) : ∃ b ∈ cloud.ofCluster context.clusterName, b.arn = x.handle.arn := by
  obtain ⟨b, hb, hbare⟩ := hr.known x hx
  have htags := Handle.tags_of_bare hbare
  have hcluster := ((hl.tagged x hx).of_tags htags).cluster
  exact ⟨b, Cloud.mem_ofCluster.mpr ⟨⟨_, Ledger.mem_of_get? hb⟩, hcluster⟩, hr.sound.arn hb⟩

end Legible

namespace Engine

variable {context : Context} {r : Resource} {a b : Stage} {others : List Holding}

theorem Move.tagged (hm : Move context r a b)
    (howner : ∀ spec, r.desired = some spec → ∃ id : Identity, id.Named ∧ r.owner = .ingress id)
    (hr : Recorded a.cloud (held r.owner a.handle ++ others))
    (ht : ∀ x ∈ held r.owner a.handle ++ others, Tagged context x) :
    ∀ x ∈ held r.owner b.handle ++ others, Tagged context x := by
  intro x hx
  rcases List.mem_append.mp hx with hx | hx
  · obtain ⟨h', hh, rfl⟩ := Option.map_eq_some_iff.mp (Option.mem_toList.mp hx)
    rcases hm.handle_tags hr hh with ⟨h, ha, htags⟩ | ⟨spec, hd, htags⟩
    · refine (ht ⟨r.owner, h⟩ (List.mem_append_left _ ?_)).of_tags htags
      simp [held, ha]
    · obtain ⟨id, hnamed, ho⟩ := howner spec hd
      rw [ho] at htags ⊢
      exact tagged_of_tags hnamed htags
  · exact ht x (List.mem_append_right _ hx)

/-- A move creates no load balancer for an owner that one is tagged for, if the other resources have
other owners. -/
theorem Move.apart (hm : Move context r a b)
    (howner : ∀ spec, r.desired = some spec → ∃ id : Identity, id.Named ∧ r.owner = .ingress id)
    (hothers : ∀ x ∈ others, x.owner.same r.owner = false ∨ r.owner.same x.owner = false)
    (hr : Recorded a.cloud (held r.owner a.handle ++ others))
    (hl : Legible context a.cloud (held r.owner a.handle ++ others)) :
    (b.cloud.ofCluster context.clusterName).Pairwise fun b b' =>
      b.owner.same b'.owner = false := by
  have hapart : ((a.cloud.ofCluster context.clusterName).map Handle.owner).Pairwise
      fun o o' => o.same o' = false := List.pairwise_map.mpr hl.apart
  -- only the owners of the load balancers matter, and only a creation adds one
  suffices ((b.cloud.ofCluster context.clusterName).map Handle.owner).Pairwise
      fun o o' => o.same o' = false from List.pairwise_map.mp this
  rw [Cloud.map_owner_ofCluster] at hapart ⊢
  cases hm with
  | refused hs => rwa [Cloud.balancers_of_store hs]
  | @create cloud cloud' spec hd hs =>
    obtain ⟨id, hnamed, ho⟩ := howner spec hd
    set made := cloud.made (nameOfKey context.clusterName r.owner.key) (attributes spec)
      (tags context r.owner) with hmade
    have hnew : cloud'.balancers = Ledger.put made.arn made cloud.balancers :=
      Cloud.balancers_of_effect hs
    have htagged : Tagged context ⟨.ingress id, made⟩ := tagged_of_tags hnamed (ho ▸ rfl)
    have hone : [made].filterMap (Cloud.ownerIn? context.clusterName) = [.ingress id] := by
      rw [List.filterMap_cons_some (b := .ingress id), List.filterMap_nil]
      rw [Cloud.ownerIn?, if_pos htagged.cluster]
      exact congrArg some htagged.owner
    rw [hnew, Ledger.put_of_not_mem hr.fresh.made_arn, List.map_append, List.filterMap_append,
      List.map_singleton, hone]
    refine List.pairwise_append.mpr ⟨hapart, List.pairwise_singleton _ _, fun o hmem o' hlast => ?_⟩
    obtain rfl := List.mem_singleton.mp hlast
    rw [← Cloud.map_owner_ofCluster] at hmem
    obtain ⟨b, hb, rfl⟩ := List.mem_map.mp hmem
    obtain ⟨x, hx, -, hxo⟩ := hl.exists_holding hr hb
    rw [← hxo, ← Bool.not_eq_true, same_ingress_iff]
    intro he
    rcases hothers x hx with hne | hne <;> simp [ho, he, Owner.same] at hne
  | @update cloud cloud' h stored spec hd hg hs =>
    have hput : cloud'.balancers =
        Ledger.put h.arn ((attributes spec).change stored) cloud.balancers :=
      Cloud.balancers_of_effect hs
    have hsame : Cloud.ownerIn? context.clusterName ((attributes spec).change stored) =
        Cloud.ownerIn? context.clusterName stored := Cloud.ownerIn?_of_tags rfl
    rwa [hput, Ledger.filterMap_put hg hsame]
  | @delete cloud cloud' h hd hs =>
    have herase : cloud'.balancers = Ledger.erase h.arn cloud.balancers :=
      Cloud.balancers_of_effect hs
    rw [herase]
    exact hapart.sublist ((List.filter_sublist.map _).filterMap _)
  | register spec batch hd hsub hs => rwa [Cloud.balancers_of_effect hs]
  | deregister batch hs => rwa [Cloud.balancers_of_effect hs]

/-- A move for a resource, of whose owner there is no other one, keeps the cloud legible. -/
theorem Move.legible (hm : Move context r a b)
    (howner : ∀ spec, r.desired = some spec → ∃ id : Identity, id.Named ∧ r.owner = .ingress id)
    (hothers : ∀ x ∈ others, x.owner.same r.owner = false ∨ r.owner.same x.owner = false)
    (hr : Recorded a.cloud (held r.owner a.handle ++ others))
    (hl : Legible context a.cloud (held r.owner a.handle ++ others)) :
    Legible context b.cloud (held r.owner b.handle ++ others) where
  tracked := hm.tracked hr hl.tracked
  tagged := hm.tagged howner hr hl.tagged
  apart := hm.apart howner hothers hr hl

end Engine

/-- The set that is found in a service is legible. -/
theorem Discovery.legible_finds {context : Context} {cloud : Cloud} {found : ResourceSet}
    (hs : cloud.Sound) (hd : found.Distinct)
    (hf : List.Forall₂ (Finds cloud) (cloud.ofCluster context.clusterName) found) :
    Legible context cloud (holdings found) where
  tracked := tracked_finds hs hf
  tagged x hx := by
    obtain ⟨b, hb, ha⟩ := exists_adopts hf x hx
    have htagged : Tagged context ⟨x.owner, b⟩ :=
      ⟨ha.owner.symm, ha.identified, (Cloud.mem_ofCluster.mp hb).2⟩
    exact htagged.of_tags (Handle.tags_of_bare ha.bare)
  apart := by
    have howners : found.map Resource.owner =
        (cloud.ofCluster context.clusterName).map Handle.owner := by
      generalize cloud.ofCluster context.clusterName = bs at hf
      induction hf with
      | nil => rfl
      | cons hfirst _ ih =>
        obtain ⟨-, targets, instances, -, -, rfl⟩ := hfirst
        exact congrArg (List.cons _) (ih (List.pairwise_cons.mp hd).2)
    have hpairs : (found.map Resource.owner).Pairwise fun o o' => o.same o' = false :=
      List.pairwise_map.mpr hd
    exact List.pairwise_map.mp (howners ▸ hpairs)

namespace Site

variable {site : Site} {steps : List Step} {step : Step}

/-- What the engine knows of the load balancers of its cluster can be read off the cloud. -/
def Legible (site : Site) : Prop :=
  IngressControl.Legible site.engine.context site.cloud (holdings site.engine.resources)

/-- A cycle that gives no load balancer up plans for all that the engine has. -/
theorem legible_plan {sources : Sources} {outages : List Outage} {now : Moment}
    {planned : ResourceSet} (hc : site.Consistent) (hl : site.Legible)
    (hkept : ∀ arn, ¬ (Step.sync outages sources now).Abandons site arn)
    (hplan : Engine.plan site.engine.context sources site.engine.resources = .ok planned) :
    IngressControl.Legible site.engine.context site.cloud (holdings planned) where
  tracked arn b hb hcl := by
    have hm := (hl.tracked arn b hb hcl).resolve_right id
    refine Or.inl ((Engine.arn_mem_plan hc.distinct hplan hm).resolve_right fun hgone => ?_)
    refine hkept arn ⟨?_, hgone⟩
    simp only [Step.cycle, Engine.sync, hplan, Engine.commit]
  tagged x hx := hl.tagged x ((Engine.holdings_plan_subperm hplan).subset hx)
  apart := hl.apart

/-- A step that gives nothing up keeps a site legible. -/
theorem legible_next (hc : site.Consistent) (hl : site.Legible)
    (hkept : ∀ arn, ¬ step.Abandons site arn) : (site.next step).Legible := by
  rw [Legible, context_next]
  cases step with
  | bootstrap outages =>
    have hr := hc.recorded.of_store_eq (site.cloud.store_withOutages outages)
    obtain ⟨hstore, ⟨-, he⟩ | ⟨-, -, hd, hf⟩⟩ := Engine.bootstrap_cases site.engine hr.sound
    · have hengine : (site.next (.bootstrap outages)).engine = site.engine := he
      rw [hengine]
      exact hl.of_store (hstore.trans (site.cloud.store_withOutages outages))
    · exact (Discovery.legible_finds hr.sound hd hf).of_store hstore
  | sync outages sources now =>
    rcases Engine.sync_cases site.engine sources now (site.cloud.withOutages outages) with
      ⟨-, hres, hcloud⟩ | ⟨planned, hplan, hsync⟩
    · have hengine : (site.next (.sync outages sources now)).engine.resources =
        site.engine.resources := hres
      have hstore : (site.next (.sync outages sources now)).cloud.store = site.cloud.store :=
        (congrArg Cloud.store hcloud).trans (site.cloud.store_withOutages outages)
      rw [hengine]
      exact hl.of_store hstore
    · -- every move keeps the agreement of engine and service, which the tags are read by
      let P : Cloud → List Holding → Prop := fun cloud hs =>
        Recorded cloud hs ∧ IngressControl.Legible site.engine.context cloud hs
      have hstart : P (site.cloud.withOutages outages) (holdings planned) :=
        ⟨(hc.recorded.of_store_eq (site.cloud.store_withOutages outages)).subperm
          (Engine.holdings_plan_subperm hplan),
          (legible_plan hc hl hkept hplan).of_store (site.cloud.store_withOutages outages)⟩
      have hall : P
          (Engine.cloudAfter site.engine.context now (site.cloud.withOutages outages) planned)
          (holdings (Engine.resourcesAfter site.engine.context now
            (site.cloud.withOutages outages) planned)) := by
        refine Engine.holdings_induction_of_pairwise (P := P) (S := fun o o' => o.same o' = false)
          (Engine.distinct_plan hc.distinct hplan)
          (fun _ _ _ hp h => ⟨h.1.subperm hp.symm.subperm, h.2.perm hp⟩) ?_ hstart
        intro r hr _ a b others hothers hm h
        refine ⟨hm.recorded h.1, hm.legible (fun spec hs => ?_) hothers h.1 h.2⟩
        obtain ⟨ingress, id, ho, howner⟩ := Engine.owner_of_mem_plan hplan hr hs
        exact ⟨id, Engine.named_of_owner? ho, howner⟩
      have hcycle : (Step.sync outages sources now).cycle site =
        site.engine.commit now (site.cloud.withOutages outages) planned := hsync
      simpa [next, hcycle] using hall.2

/-- A run that gives no load balancer up keeps the cloud legible. -/
theorem Consistent.legible_run (hc : site.Consistent) (hl : site.Legible)
    (hkept : ∀ arn, ¬ site.Abandoned steps arn) : (site.run steps).Legible := by
  induction steps generalizing site with
  | nil => exact hl
  | cons step rest ih =>
    rw [run_cons]
    have hfirst : ∀ arn, ¬ step.Abandons site arn := fun arn ha =>
      hkept arn ⟨[], step, rest, rfl, ha⟩
    exact ih (hc.next step) (legible_next hc hl hfirst) fun arn ha => hkept arn ha.cons

/-- In a run that starts with nothing committed, and with no load balancer of the cluster or with a
bootstrap that succeeds, the cloud is legible as long as no load balancer is given up. -/
theorem Initial.legible_run (hi : site.Initial)
    (hstart : site.cloud.ofCluster site.engine.context.clusterName = [] ∨
      ∃ outages rest, steps = .bootstrap outages :: rest ∧
        ((Step.bootstrap outages).cycle site).outcome = .ok ())
    (hkept : ∀ arn, ¬ site.Abandoned steps arn) : (site.run steps).Legible := by
  rcases hstart with hnone | ⟨outages, rest, rfl, hok⟩
  · refine hi.consistent.legible_run ⟨fun arn b hb hcl => ?_, ?_, ?_⟩ hkept
    · have hmem : b ∈ site.cloud.ofCluster site.engine.context.clusterName :=
        Cloud.mem_ofCluster.mpr ⟨⟨arn, Ledger.mem_of_get? hb⟩, hcl⟩
      rw [hnone] at hmem
      exact absurd hmem List.not_mem_nil
    · simp [hi.empty, holdings]
    · rw [hnone]
      exact List.Pairwise.nil
  · have hr := hi.consistent.recorded.of_store_eq (site.cloud.store_withOutages outages)
    refine (hi.consistent.next _).legible_run ?_ fun arn ha => hkept arn ha.cons
    rw [Legible, context_next]
    obtain ⟨hstore, ⟨hfailed | hfailed, -⟩ | ⟨-, -, hd, hf⟩⟩ :=
      Engine.bootstrap_cases site.engine hr.sound
    · exact absurd hi.empty hfailed
    · exact absurd hok hfailed
    · exact (Discovery.legible_finds hr.sound hd hf).of_store hstore

end Site

end IngressControl
