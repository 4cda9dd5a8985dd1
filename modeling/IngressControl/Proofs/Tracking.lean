import IngressControl.Proofs.Runs

/-! No load balancer of the cluster is lost. The engine keeps one handle for each of them through
every failure, except for those that it gives up: the load balancers of tainted resources whose
ingress is no longer listed. -/

namespace IngressControl
open scoped List

/-- Every load balancer of a cluster is one that the engine has or one that is gone from it. -/
def Tracked (cluster : String) (cloud : Cloud) (hs : List Holding) (gone : String → Prop) : Prop :=
  ∀ arn b, Ledger.get? arn cloud.balancers = some b → Cloud.belongsTo cluster b = true →
    arn ∈ arns hs ∨ gone arn

theorem Tracked.perm {cluster : String} {cloud : Cloud} {hs hs' : List Holding}
    {gone : String → Prop} (hp : hs ~ hs') (ht : Tracked cluster cloud hs gone) :
    Tracked cluster cloud hs' gone := by
  intro arn b hb hc
  exact (ht arn b hb hc).imp_left (hp.map _).mem_iff.mp

theorem Tracked.of_store {cluster : String} {cloud cloud' : Cloud} {hs : List Holding}
    {gone : String → Prop} (he : cloud'.store = cloud.store) (ht : Tracked cluster cloud hs gone) :
    Tracked cluster cloud' hs gone :=
  fun arn b hb hc => ht arn b (Cloud.balancers_of_store he ▸ hb) hc

/-- A found set tracks every load balancer of the cluster. -/
theorem tracked_finds {cluster : String} {cloud : Cloud} {found : ResourceSet}
    {gone : String → Prop} (hs : cloud.Sound)
    (hf : List.Forall₂ (Discovery.Finds cloud) (cloud.ofCluster cluster) found) :
    Tracked cluster cloud (holdings found) gone := by
  intro arn b hb hc
  have hmem : b ∈ cloud.ofCluster cluster :=
    Cloud.mem_ofCluster.mpr ⟨⟨arn, Ledger.mem_of_get? hb⟩, hc⟩
  have hname : b.arn = arn := hs.arn hb
  rw [Discovery.arns_finds hf, ← hname]
  exact Or.inl (List.mem_map_of_mem hmem)

namespace Engine

variable {context : Context} {r : Resource} {a b : Stage} {others : List Holding}
  {cluster : String} {gone : String → Prop}

/-- A move drops a handle only together with its load balancer. -/
theorem Move.tracked (hm : Move context r a b)
    (hr : Recorded a.cloud (held r.owner a.handle ++ others))
    (ht : Tracked cluster a.cloud (held r.owner a.handle ++ others) gone) :
    Tracked cluster b.cloud (held r.owner b.handle ++ others) gone := by
  intro arn balancer hb hc
  cases hm with
  | refused hs => exact ht arn balancer (Cloud.balancers_of_store hs ▸ hb) hc
  | create spec hd hs =>
    rw [Cloud.balancers_of_effect hs] at hb
    rcases Ledger.get?_put_eq_some_iff.mp hb with ⟨rfl, -⟩ | ⟨-, hb⟩
    · exact Or.inl List.mem_cons_self
    · exact (ht arn balancer hb hc).imp_left (List.mem_cons_of_mem _)
  | @update cloud cloud' h stored spec hd hg hs =>
    have hname : stored.arn = h.arn := hr.sound.arn hg
    have hsame : arns (held r.owner (some { (attributes spec).change stored with
        instances := h.instances }) ++ others) = arns (held r.owner (some h) ++ others) :=
      congrArg (fun name => name :: arns others) hname
    rw [hsame]
    rw [Cloud.balancers_of_effect hs] at hb
    rcases Ledger.get?_put_eq_some_iff.mp hb with ⟨rfl, -⟩ | ⟨-, hb⟩
    · exact Or.inl List.mem_cons_self
    · exact ht arn balancer hb hc
  | @delete cloud cloud' h hd hs =>
    -- the one name that the engine loses is the one that the cloud loses
    rw [Cloud.balancers_of_effect hs] at hb
    obtain ⟨hk, hb⟩ := Ledger.get?_erase_eq_some_iff.mp hb
    apply (ht arn balancer hb hc).imp_left
    intro hmem
    exact (List.mem_cons.mp hmem).resolve_left hk
  | @register cloud cloud' h spec batch hd hsub hs =>
    rw [Cloud.balancers_of_effect hs] at hb
    have hsame : arns (held r.owner (some (follow h (h.instances ++ batch))) ++ others) =
        arns (held r.owner (some h) ++ others) :=
      congrArg (fun name => name :: arns others) (follow_arn h _)
    exact hsame ▸ ht arn balancer hb hc
  | @deregister cloud cloud' h batch hs =>
    rw [Cloud.balancers_of_effect hs] at hb
    have hsame : arns (held r.owner (some (follow h (without h.instances batch))) ++ others) =
        arns (held r.owner (some h) ++ others) :=
      congrArg (fun name => name :: arns others) (follow_arn h _)
    exact hsame ▸ ht arn balancer hb hc

/-- A cycle plans for every load balancer that the engine has, but for those that it gives up. -/
theorem arn_mem_plan {context : Context} {sources : Sources} {previous planned : ResourceSet}
    (hd : previous.Distinct) (hplan : plan context sources previous = .ok planned) {arn : String}
    (hm : arn ∈ arns (holdings previous)) : arn ∈ arns (holdings planned) ∨
      ∃ r ∈ previous, r.handle.map Handle.arn = some arn ∧ r.tainted = true ∧
        ¬ Declared context sources r.owner := by
  obtain ⟨x, hx, rfl⟩ := List.mem_map.mp hm
  obtain ⟨r, hr, -, hh⟩ := mem_holdings.mp hx
  rcases mem_holdings_plan hd hplan hr hh with hp | ⟨ht, hn⟩
  · exact Or.inl (List.mem_map.mpr ⟨_, hp, rfl⟩)
  · exact Or.inr ⟨r, hr, by rw [hh]; rfl, ht, hn⟩

end Engine

namespace Site

variable {site : Site} {gone : String → Prop}

/-- The engine has a load balancer as the handle of exactly one committed resource. -/
def Tracks (site : Site) (b : Handle) : Prop :=
  ∃ before r after, site.engine.resources = before ++ r :: after ∧
    r.handle.map Handle.bare = some b.bare ∧
    ∀ r' ∈ before ++ after, r'.handle.map Handle.arn ≠ some b.arn

/-- What the engine has under the name of a load balancer is that load balancer, and it has it
once. -/
theorem tracks_of_mem (hr : Recorded site.cloud (holdings site.engine.resources)) {b : Handle}
    (hb : Ledger.get? b.arn site.cloud.balancers = some b)
    (hm : b.arn ∈ arns (holdings site.engine.resources)) : site.Tracks b := by
  obtain ⟨x, hx, hname⟩ := List.mem_map.mp hm
  obtain ⟨stored, hstored, hbare⟩ := hr.known x hx
  obtain ⟨r, hmem, -, hh⟩ := mem_holdings.mp hx
  have heq : stored = b := by
    rw [hname, hb] at hstored
    exact (Option.some.inj hstored).symm
  obtain ⟨before, after, hsplit⟩ := List.append_of_mem hmem
  have hapart := pairwise_of_nodup_arns hr.nodup
  rw [hsplit] at hapart
  obtain ⟨-, hafter, hbefore⟩ := List.pairwise_append.mp hapart
  refine ⟨before, r, after, hsplit, by rw [hh, ← heq, hbare]; rfl, fun r' hr' hn => ?_⟩
  obtain ⟨h', hh', hname'⟩ := Option.map_eq_some_iff.mp hn
  rcases List.mem_append.mp hr' with hr' | hr'
  · exact hbefore r' hr' r List.mem_cons_self h' x.handle hh' hh (hname'.trans hname.symm)
  · exact (List.pairwise_cons.mp hafter).1 r' hr' x.handle h' hh hh' (hname.trans hname'.symm)

/-- A step keeps track of every load balancer but those that it gives up. -/
theorem tracked_next (hc : site.Consistent)
    (ht : Tracked site.engine.context.clusterName site.cloud (holdings site.engine.resources) gone)
    (step : Step) :
    Tracked site.engine.context.clusterName (site.next step).cloud
      (holdings (site.next step).engine.resources)
      (fun arn => gone arn ∨ step.Abandons site arn) := by
  have hmono : Tracked site.engine.context.clusterName site.cloud (holdings site.engine.resources)
      (fun arn => gone arn ∨ step.Abandons site arn) :=
    fun arn b hb hcl => (ht arn b hb hcl).imp_right Or.inl
  cases step with
  | bootstrap outages =>
    have hr := hc.recorded.of_store_eq (site.cloud.store_withOutages outages)
    obtain ⟨hstore, ⟨-, he⟩ | ⟨-, -, -, hf⟩⟩ := Engine.bootstrap_cases site.engine hr.sound
    · have hkept : (site.next (.bootstrap outages)).engine = site.engine := he
      rw [hkept]
      exact hmono.of_store hstore
    · exact (tracked_finds hr.sound hf).of_store hstore
  | sync outages sources now =>
    have hr := hc.recorded.of_store_eq (site.cloud.store_withOutages outages)
    refine Engine.recorded_sync_induction
      (P := fun cloud hs => Tracked site.engine.context.clusterName cloud hs
        (fun arn => gone arn ∨ (Step.sync outages sources now).Abandons site arn))
      now hr (fun _ _ _ hp h => h.perm hp) hmono (fun planned hplan => ?_)
      (fun _ _ _ _ _ _ _ _ hm hr h => hm.tracked hr h)
    -- only the plan gives load balancers up, and a cycle with a plan succeeds
    intro arn b hb hcl
    have houtcome : ((Step.sync outages sources now).cycle site).outcome = .ok () := by
      simp only [Step.cycle, Engine.sync, hplan, Engine.commit]
    rcases hmono arn b hb hcl with hm | hg
    · exact (Engine.arn_mem_plan hc.distinct hplan hm).imp_right fun h => Or.inr ⟨houtcome, h⟩
    · exact Or.inr hg

/-- In a run the engine has every load balancer of the cluster that it did not give up. -/
theorem Consistent.tracked_run (hc : site.Consistent)
    (ht : Tracked site.engine.context.clusterName site.cloud (holdings site.engine.resources) gone)
    (steps : List Step) :
    (site.run steps).Consistent ∧
      Tracked site.engine.context.clusterName (site.run steps).cloud
        (holdings (site.run steps).engine.resources)
        (fun arn => gone arn ∨ site.Abandoned steps arn) := by
  induction steps using List.reverseRecOn with
  | nil => exact ⟨hc, fun arn b hb hcl => (ht arn b hb hcl).imp_right Or.inl⟩
  | append_singleton steps step ih =>
    obtain ⟨hc', ht'⟩ := ih
    rw [run_append_singleton]
    refine ⟨hc'.next step, fun arn b hb hcl => ?_⟩
    rw [← context_run site steps] at ht' hcl
    rcases tracked_next hc' ht' step arn b hb hcl with hm | (hg | hg) | hg
    · exact Or.inl hm
    · exact Or.inr (Or.inl hg)
    · exact Or.inr (Or.inr (hg.append _))
    · exact Or.inr (Or.inr (abandoned_of_abandons hg))

theorem Initial.tracked_bootstrap (hi : site.Initial) {outages : List Outage}
    (hok : ((Step.bootstrap outages).cycle site).outcome = .ok ()) :
    Tracked site.engine.context.clusterName (site.next (.bootstrap outages)).cloud
      (holdings (site.next (.bootstrap outages)).engine.resources) (fun _ => False) := by
  have hr := hi.consistent.recorded.of_store_eq (site.cloud.store_withOutages outages)
  obtain ⟨hstore, ⟨hfailed | hfailed, -⟩ | ⟨-, -, -, hf⟩⟩ :=
    Engine.bootstrap_cases site.engine hr.sound
  · exact absurd hi.empty hfailed
  · exact absurd hok hfailed
  · exact (tracked_finds hr.sound hf).of_store hstore

/-- In a run that starts with nothing committed, and with no load balancer of the cluster or with a
bootstrap that succeeds, the engine has the load balancers of the cluster that it did not give up.
-/
theorem Initial.tracked_run (hi : site.Initial) {steps : List Step}
    (hstart : site.cloud.ofCluster site.engine.context.clusterName = [] ∨
      ∃ outages rest, steps = .bootstrap outages :: rest ∧
        ((Step.bootstrap outages).cycle site).outcome = .ok ()) :
    Tracked site.engine.context.clusterName (site.run steps).cloud
      (holdings (site.run steps).engine.resources) (site.Abandoned steps) := by
  intro arn b hb hcl
  rcases hstart with hnone | ⟨outages, rest, rfl, hok⟩
  · have hempty : Tracked site.engine.context.clusterName site.cloud
        (holdings site.engine.resources) (fun _ => False) := by
      intro arn b hb hcl
      have hmem : b ∈ site.cloud.ofCluster site.engine.context.clusterName :=
        Cloud.mem_ofCluster.mpr ⟨⟨arn, Ledger.mem_of_get? hb⟩, hcl⟩
      rw [hnone] at hmem
      exact absurd hmem List.not_mem_nil
    exact ((hi.consistent.tracked_run hempty steps).2 arn b hb hcl).imp_right (·.resolve_left id)
  · -- the steps after the bootstrap are a run of their own
    have hfirst := hi.tracked_bootstrap hok
    rw [← context_next site (.bootstrap outages)] at hfirst hcl
    have hrest := ((hi.consistent.next _).tracked_run hfirst rest).2 arn b hb hcl
    exact hrest.imp_right fun h => (h.resolve_left id).cons

/-- In such a run every load balancer of the cluster is the handle of exactly one committed resource
after every step, whichever calls fail, unless the engine gave it up. -/
theorem tracks_or_abandoned (hi : site.Initial) (steps : List Step)
    (hstart : site.cloud.ofCluster site.engine.context.clusterName = [] ∨
      ∃ outages rest, steps = .bootstrap outages :: rest ∧
        ((Step.bootstrap outages).cycle site).outcome = .ok ()) :
    ∀ b ∈ (site.run steps).cloud.ofCluster site.engine.context.clusterName,
      (site.run steps).Tracks b ∨ site.Abandoned steps b.arn := by
  -- what the engine tracks is read off the names; the agreement makes it one resource each
  have hr := (hi.consistent_run steps).recorded
  intro b hb
  have hg := hr.sound.get?_of_mem_ofCluster hb
  exact (hi.tracked_run hstart b.arn b hg (Cloud.mem_ofCluster.mp hb).2).imp_left
    (tracks_of_mem hr hg)

end Site

/-- The load balancer whose targets could not be registered is tracked. -/
theorem Shop.tracks_after_outage :
    ((start.run [sync [registrationFails] [ingress] [service]]).cloud.ofCluster "shop").length = 1 ∧
      ∀ b ∈ (start.run [sync [registrationFails] [ingress] [service]]).cloud.ofCluster "shop",
        (start.run [sync [registrationFails] [ingress] [service]]).Tracks b ∨
          start.Abandoned [sync [registrationFails] [ingress] [service]] b.arn :=
  ⟨by decide +kernel, Site.tracks_or_abandoned initial_start _ (Or.inl rfl)⟩

end IngressControl
