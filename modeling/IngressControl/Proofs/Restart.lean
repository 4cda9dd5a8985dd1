import IngressControl.Proofs.Revived

/-! An engine that takes the place of another, and has nothing but what an assembly found. From
there it does what the old one would have done: it makes the same calls, but for the order of
deletions, and is left with the same resources. -/

namespace IngressControl
open scoped List
open Document (Texts)

/-- In a distinct set, the handle found for an identity is the one held for it. -/
theorem handle_eq_some_iff {set : ResourceSet} (hd : set.Distinct) {id : Identity} {h : Handle} :
    (set.find? (.ingress id)).bind Resource.handle = some h ↔
      ⟨.ingress id, h⟩ ∈ holdings set := by
  rw [Option.bind_eq_some_iff, mem_holdings]
  constructor
  · rintro ⟨r, hf, hh⟩
    obtain ⟨hr, ho⟩ := Engine.owner_of_find? hf
    exact ⟨r, hr, ho, hh⟩
  · rintro ⟨r, hr, ho, hh⟩
    exact ⟨r, Engine.find?_of_mem hd hr ho, hh⟩

/-- Sets whose holdings are alike have alike handles for every identity. -/
theorem rel_handles {set set' : ResourceSet} (hd : set.Distinct) (hd' : set'.Distinct)
    (h : Reordering Holding.Alike (holdings set) (holdings set')) (id : Identity) :
    Option.Rel Handle.Alike ((set.find? (.ingress id)).bind Resource.handle)
      ((set'.find? (.ingress id)).bind Resource.handle) := by
  cases hh : (set.find? (.ingress id)).bind Resource.handle with
  | some handle =>
    obtain ⟨⟨owner, handle'⟩, hx, rfl, ha⟩ := h.exists_right ((handle_eq_some_iff hd).mp hh)
    rw [(handle_eq_some_iff hd').mpr hx]
    exact .some ha
  | none =>
    cases hh' : (set'.find? (.ingress id)).bind Resource.handle with
    | none => exact .none
    | some handle' =>
      obtain ⟨⟨owner, handle⟩, hx, ho, -⟩ := h.exists_left ((handle_eq_some_iff hd').mp hh')
      obtain rfl : .ingress id = owner := ho
      rw [(handle_eq_some_iff hd).mpr hx] at hh
      cases hh

namespace Cloud

def deleting (cloud : Cloud) (hs : List Holding) : Cloud :=
  { cloud with
    balancers := cloud.balancers.filter fun entry => decide (entry.1 ∉ arns hs)
    targets := cloud.targets.filter fun entry => decide (entry.1 ∉ arns hs)
    calls := cloud.calls ++ hs.map fun x => ⟨.delete, x.handle.name⟩ }

@[simp] theorem deleting_nil (cloud : Cloud) : cloud.deleting [] = cloud := by
  simp [deleting, arns]

@[simp] theorem deleting_append (cloud : Cloud) (hs hs' : List Holding) :
    cloud.deleting (hs ++ hs') = (cloud.deleting hs).deleting hs' := by
  have hfilter {α : Type} (entries : List (String × α)) :
      entries.filter (fun entry => decide (entry.1 ∉ arns (hs ++ hs'))) =
        (entries.filter fun entry => decide (entry.1 ∉ arns hs)).filter
          fun entry => decide (entry.1 ∉ arns hs') := by
    rw [List.filter_filter]
    refine List.filter_congr fun entry _ => ?_
    rw [arns, List.map_append, ← arns, ← arns]
    simp [Bool.and_comm]
  simp only [deleting, hfilter, List.map_append, List.append_assoc]

theorem delete_of_calm {cloud : Cloud} (hc : cloud.Calm) (owner : Owner) (h : Handle) :
    cloud.delete h = (.ok (), cloud.deleting [⟨owner, h⟩]) := by
  have houtages : cloud.outages = [] := hc
  simp [delete, perform, houtages, Outage.meet, deleting, arns, Ledger.erase]

/-- The order of deletions does not matter to the store. -/
theorem store_deleting_of_perm (cloud : Cloud) {hs hs' : List Holding} (h : arns hs ~ arns hs') :
    (cloud.deleting hs).store = (cloud.deleting hs').store := by
  simp only [deleting, store, h.mem_iff]

end Cloud

namespace Engine

variable {context : Context} {now : Moment} {cloud : Cloud}

/-- A resource that nothing wants is deleted, if there is something to delete, and is not kept. -/
theorem reconcile_of_unwanted (context : Context) (now : Moment) (hc : cloud.Calm) {r : Resource}
    (ht : r.tainted = false) (hd : r.desired = none) :
    (reconcile context now cloud r).cloud = cloud.deleting (held r.owner r.handle) ∧
      isKept (reconcile context now cloud r).resource = false := by
  have happly : apply context cloud r = ⟨.ok (if r.handle.isSome then .deleted else r.status),
      none, ((r.handle.map Handle.name).getD (.string "")),
      cloud.deleting (held r.owner r.handle)⟩ := by
    cases hh : r.handle with
    | none => simp [apply, hd, hh, held, Cloud.deleting_nil]
    | some h => simp [apply, hd, hh, held, applyDelete, Cloud.delete_of_calm hc r.owner h]
  obtain ⟨hcloud, hres⟩ := reconcile_of_outcome now ht happly
  refine ⟨hcloud, ?_⟩
  rw [hres]
  simp [isKept, ht, hd]

theorem calm_deleting (hc : cloud.Calm) (hs : List Holding) : (cloud.deleting hs).Calm := hc

/-- What nothing wants is deleted one by one, and nothing of it is kept. -/
theorem cloudAfter_of_unwanted (context : Context) (now : Moment) (hc : cloud.Calm)
    {planned : ResourceSet} (hp : ∀ r ∈ planned, r.tainted = false ∧ r.desired = none) :
    cloudAfter context now cloud planned = cloud.deleting (holdings planned) ∧
      (resourcesAfter context now cloud planned).filter isKept = [] := by
  induction planned generalizing cloud with
  | nil => exact ⟨(Cloud.deleting_nil cloud).symm, rfl⟩
  | cons r rest ih =>
    obtain ⟨ht, hd⟩ := hp r List.mem_cons_self
    obtain ⟨hcloud, hkept⟩ := reconcile_of_unwanted context now hc ht hd
    obtain ⟨hrest, hnone⟩ := ih (calm_deleting hc (held r.owner r.handle))
      fun r hr => hp r (List.mem_cons_of_mem _ hr)
    rw [cloudAfter_cons, resourcesAfter_cons, hcloud, hrest,
      List.filter_cons_of_neg (by simp [hkept]), ← Cloud.deleting_append]
    exact ⟨rfl, hnone⟩

/-- The plan of a cycle that could list its ingresses and nodes. -/
def planBy (context : Context) (services : Source) (previous : ResourceSet)
    (ingresses instances : List Document) : ResourceSet :=
  declaredBy context services previous ingresses instances ++
    orphans previous (declaredBy context services previous ingresses instances)

/-- A cycle fails from every set, or from every set it has a plan. -/
theorem plan_uniform (context : Context) (sources : Sources) :
    (∃ fault, ∀ previous, plan context sources previous = .error fault) ∨
      ∃ ingresses instances, sources.ingresses.list = .ok ingresses ∧
        Node.listInstances sources.nodes = .ok instances ∧
        ∀ previous, plan context sources previous =
          .ok (planBy context sources.services previous ingresses instances) := by
  unfold plan declared
  cases hl : sources.ingresses.list with
  | error fault => exact Or.inl ⟨_, fun _ => rfl⟩
  | ok ingresses =>
    cases hn : Node.listInstances sources.nodes with
    | error fault => exact Or.inl ⟨_, fun _ => rfl⟩
    | ok instances => exact Or.inr ⟨ingresses, instances, rfl, rfl, fun _ => rfl⟩

/-- If what is tainted is declared, all that is held for other owners is to be deleted. -/
theorem holdings_orphans_of_declared {set declared : ResourceSet}
    (hs : ∀ r ∈ set, r.tainted = true → (declared.find? r.owner).isSome) :
    holdings (orphans set declared) =
      (holdings set).filter fun x => (declared.find? x.owner).isNone := by
  rw [holdings_orphans]
  induction set with
  | nil => rfl
  | cons r rest ih =>
    have hrest := ih fun r hr => hs r (List.mem_cons_of_mem _ hr)
    have hcons (set : ResourceSet) : holdings (r :: set) =
      held r.owner r.handle ++ holdings set := rfl
    rw [hcons, List.filter_append, ← hrest]
    by_cases ho : isOrphan declared r = true
    · have hnone := (isOrphan_iff.mp ho).2.1
      have hall : (held r.owner r.handle).filter (fun x => (declared.find? x.owner).isNone) =
          held r.owner r.handle := List.filter_eq_self.mpr fun x hx => by
        obtain ⟨h, -, rfl⟩ := Option.map_eq_some_iff.mp (Option.mem_toList.mp hx)
        simpa using hnone
      rw [List.filter_cons_of_pos ho, hcons, hall]
    · have hnothing : (held r.owner r.handle).filter (fun x => (declared.find? x.owner).isNone) =
          [] := List.filter_eq_nil_iff.mpr fun x hx hnone => by
        obtain ⟨h, hh, rfl⟩ := Option.map_eq_some_iff.mp (Option.mem_toList.mp hx)
        have hnone : ¬ (declared.find? r.owner).isSome := by simpa using hnone
        have ht : ¬ r.tainted = true := fun ht => hnone (hs r List.mem_cons_self ht)
        exact ho (isOrphan_iff.mpr ⟨by simpa using ht, hnone, by rw [hh]; rfl⟩)
      rw [List.filter_cons_of_neg ho, hnothing, List.nil_append]

theorem isKept_of_alike {r r' : Resource} (h : r.Alike r') : isKept r' = isKept r := by
  have hhandle : r'.handle.isSome = r.handle.isSome := by
    cases hr : r.handle <;> cases hr' : r'.handle <;> have hh := h.handle <;>
      rw [hr, hr'] at hh <;> first | rfl | cases hh
  cases ht : r.tainted with
  | true => simp [isKept, h.tainted, ht]
  | false => simp [isKept, h.tainted, h.desired ht, hhandle]

section Plan

variable {context : Context} {services : Source} {ingresses instances : List Document}
  {set set' : ResourceSet}

theorem unwanted_orphans (set declared : ResourceSet) :
    ∀ r ∈ orphans set declared, r.tainted = false ∧ r.desired = none := by
  intro r hr
  obtain ⟨r', -, -, rfl⟩ := mem_orphans.mp hr
  exact ⟨rfl, rfl⟩

/-- From sets that hold the same, the same is to be deleted, if what is tainted is declared. -/
theorem orphans_alike (hheld : Reordering Holding.Alike (holdings set) (holdings set'))
    (hs : ∀ r ∈ set, r.tainted = true →
      ∃ id ∈ (owned context ingresses).map Prod.fst, r.owner = .ingress id)
    (hs' : ∀ r ∈ set', r.tainted = true →
      ∃ id ∈ (owned context ingresses).map Prod.fst, r.owner = .ingress id) :
    Reordering Holding.Alike
      (holdings (orphans set (declaredBy context services set ingresses instances)))
      (holdings (orphans set' (declaredBy context services set' ingresses instances))) := by
  rw [holdings_orphans_of_declared fun r hr ht => isSome_find?_declaredBy.mpr (hs r hr ht),
    holdings_orphans_of_declared fun r hr ht => isSome_find?_declaredBy.mpr (hs' r hr ht)]
  refine hheld.filter fun x x' ha => ?_
  rw [ha.owner, ← Option.not_isSome, ← Option.not_isSome, Bool.eq_iff_iff, Bool.not_eq_true',
    Bool.not_eq_true', ← Bool.not_eq_true, ← Bool.not_eq_true, isSome_find?_declaredBy,
    isSome_find?_declaredBy]

/-- Without outages a cycle reconciles what is declared, and deletes the rest. -/
theorem planBy_of_calm (context : Context) (now : Moment) (services : Source) (set : ResourceSet)
    (ingresses instances : List Document) (hc : cloud.Calm) :
    cloudAfter context now cloud (planBy context services set ingresses instances) =
        (cloudAfter context now cloud
          (declaredBy context services set ingresses instances)).deleting
            (holdings (orphans set (declaredBy context services set ingresses instances))) ∧
      (resourcesAfter context now cloud
          (planBy context services set ingresses instances)).filter isKept =
        (resourcesAfter context now cloud
          (declaredBy context services set ingresses instances)).filter isKept := by
  unfold planBy
  generalize declaredBy context services set ingresses instances = declared
  have hcalm : (cloudAfter context now cloud declared).Calm := calm_cloudAfter hc declared
  obtain ⟨hgone, hnone⟩ := cloudAfter_of_unwanted context now hcalm (unwanted_orphans set declared)
  rw [cloudAfter_append, resourcesAfter_append, List.filter_append, hgone, hnone, List.append_nil]
  exact ⟨rfl, rfl⟩

/-- From sets that hold the same, and on clouds that hold the same, cycles make the same calls but
for the order of the deletions, and leave resources that are alike. -/
theorem planBy_alike (now : Moment) (services : Source) {log log' : List Call} {cloud' : Cloud}
    (hc : cloud.Calm) (ht : cloud.Twins log log' cloud') (hi : Texts instances)
    (hd : set.Distinct) (hd' : set'.Distinct)
    (hheld : Reordering Holding.Alike (holdings set) (holdings set'))
    (hs : ∀ r ∈ set, r.tainted = true →
      ∃ id ∈ (owned context ingresses).map Prod.fst, r.owner = .ingress id)
    (hs' : ∀ r ∈ set', r.tainted = true →
      ∃ id ∈ (owned context ingresses).map Prod.fst, r.owner = .ingress id) :
    ∃ (c : Cloud) (gone gone' : List Holding),
      cloudAfter context now cloud (planBy context services set ingresses instances) =
        (c.preceded log).deleting gone ∧
      cloudAfter context now cloud' (planBy context services set' ingresses instances) =
        (c.preceded log').deleting gone' ∧
      Reordering Holding.Alike gone gone' ∧
      List.Forall₂ Resource.Alike
        ((resourcesAfter context now cloud
          (planBy context services set ingresses instances)).filter isKept)
        ((resourcesAfter context now cloud'
          (planBy context services set' ingresses instances)).filter isKept) := by
  have hc' : cloud'.Calm := by
    obtain ⟨c, rfl, rfl⟩ := ht
    exact hc
  obtain ⟨⟨c, hcloud, hcloud'⟩, hall⟩ :=
    declaredBy_alike context now services ingresses hi (rel_handles hd hd' hheld) ht
  obtain ⟨hgone, hkept⟩ := planBy_of_calm context now services set ingresses instances hc
  obtain ⟨hgone', hkept'⟩ := planBy_of_calm context now services set' ingresses instances hc'
  refine ⟨c, _, _, hcloud ▸ hgone, hcloud' ▸ hgone', orphans_alike hheld hs hs', ?_⟩
  rw [hkept, hkept']
  exact List.rel_filter (R := Resource.Alike)
    (fun _ _ ha => Bool.eq_iff_iff.mp (isKept_of_alike ha).symm) hall

end Plan

end Engine

namespace Site

variable {site : Site} {steps : List Step}

/-- A new engine in the place of the old one, after its bootstrap. -/
def restarted (site : Site) : Site :=
  (⟨{ context := site.engine.context }, site.cloud⟩ : Site).next (.bootstrap [])

structure Resumes (site : Site) (sources : Sources) (now : Moment) : Prop where
  outcome : ((Step.sync [] sources now).cycle site.restarted).outcome =
    ((Step.sync [] sources now).cycle site).outcome
  calls : ∃ made deletions deletions' : List Call,
    (site.next (.sync [] sources now)).cloud.calls = site.cloud.calls ++ made ++ deletions ∧
    (site.restarted.next (.sync [] sources now)).cloud.calls =
      site.restarted.cloud.calls ++ made ++ deletions' ∧
    deletions ~ deletions' ∧ ∀ call ∈ deletions, call.operation = .delete
  store : (site.restarted.next (.sync [] sources now)).cloud.store =
    (site.next (.sync [] sources now)).cloud.store
  committed : ((Step.sync [] sources now).cycle site).outcome = .ok () →
    List.Forall₂ Resource.Alike (site.next (.sync [] sources now)).engine.resources
      (site.restarted.next (.sync [] sources now)).engine.resources

@[simp] theorem context_restarted (site : Site) :
    site.restarted.engine.context = site.engine.context :=
  context_next _ _

/-- After a restart the engine has what was assembled. -/
theorem restarted_of_assemble {found : ResourceSet} {cloud : Cloud}
    (h : Discovery.assemble (site.cloud.withOutages []) site.engine.context.clusterName =
      (.ok found, cloud)) :
    site.restarted.engine.resources = found ∧ site.restarted.cloud = cloud := by
  simp [restarted, next, Step.cycle, Engine.bootstrap, h]

/-- If the sources cannot be listed, neither engine does anything. -/
theorem resumes_of_failed {sources : Sources} (now : Moment) {fault : Fault}
    (hfailed : ∀ previous, Engine.plan site.engine.context sources previous = .error fault)
    (hstore : site.restarted.cloud.store = site.cloud.store) : site.Resumes sources now := by
  have hcycle (s : Site) (hc : s.engine.context = site.engine.context) :
      ((Step.sync [] sources now).cycle s).outcome = .error fault ∧
        (s.next (.sync [] sources now)).cloud = s.cloud.withOutages [] := by
    rw [next, Step.cycle, Engine.sync, hc, hfailed]
    exact ⟨rfl, rfl⟩
  obtain ⟨hout, hcloud⟩ := hcycle site rfl
  obtain ⟨hout', hcloud'⟩ := hcycle site.restarted site.context_restarted
  refine ⟨hout'.trans hout.symm, ⟨[], [], [], ?_, ?_, .refl _, by simp⟩, ?_, fun hok => ?_⟩
  · rw [hcloud, List.append_nil, List.append_nil]
    rfl
  · rw [hcloud', List.append_nil, List.append_nil]
    rfl
  · rw [hcloud, hcloud']
    exact hstore
  · rw [hout] at hok
    cases hok

/-- A bootstrapped engine that has what the old one has does what the old one would have done. -/
theorem resumes_of_holdings {sources : Sources} (now : Moment)
    (hn : (Step.sync [] sources now).TextNodes) (hd : site.engine.resources.Distinct)
    (hd' : site.restarted.engine.resources.Distinct)
    (hheld : Reordering Holding.Alike (holdings site.engine.resources)
      (holdings site.restarted.engine.resources))
    (hstore : site.restarted.cloud.store = site.cloud.store)
    (hs : ∀ r ∈ site.engine.resources, r.tainted = true →
      Engine.Declared site.engine.context sources r.owner)
    (hs' : ∀ r ∈ site.restarted.engine.resources, r.tainted = false) :
    site.Resumes sources now := by
  rcases Engine.plan_uniform site.engine.context sources with
    ⟨fault, hfailed⟩ | ⟨ingresses, instances, hl, hlisted, hplan⟩
  · exact resumes_of_failed now hfailed hstore
  have hcontext := site.context_restarted
  have hnext : (Step.sync [] sources now).cycle site =
      site.engine.commit now (site.cloud.withOutages []) _ := Engine.sync_of_plan (hplan _)
  have hnext' : (Step.sync [] sources now).cycle site.restarted =
      site.restarted.engine.commit now (site.restarted.cloud.withOutages []) _ :=
    Engine.sync_of_plan (hcontext ▸ hplan _)
  have hcalm : (site.cloud.withOutages []).Calm := rfl
  have htwins : (site.cloud.withOutages []).Twins site.cloud.calls site.restarted.cloud.calls
      (site.restarted.cloud.withOutages []) := by
    refine ⟨site.cloud.store, ?_, ?_⟩
    · simp [Cloud.withOutages, Cloud.preceded, Cloud.store]
    · rw [← hstore]
      simp [Cloud.withOutages, Cloud.preceded, Cloud.store]
  obtain ⟨c, gone, gone', hgone, hgone', hsame, hall⟩ := Engine.planBy_alike now sources.services
    hcalm htwins (hn instances hlisted) hd hd' hheld
    (fun r hr ht => (Engine.declared_iff_of_list hl).mp (hs r hr ht))
    (fun r hr ht => absurd ht (by simp [hs' r hr]))
  -- the calls for what is declared come first, and behind them the deletions
  refine ⟨?_, ⟨c.calls, gone.map fun x => ⟨.delete, x.handle.name⟩,
    gone'.map fun x => ⟨.delete, x.handle.name⟩, ?_, ?_, ?_, ?_⟩, ?_, fun _ => ?_⟩
  · rw [hnext, hnext']
    rfl
  · rw [next, hnext, Engine.commit_cloud, hgone]
    rfl
  · rw [next, hnext', Engine.commit_cloud, hcontext, hgone']
    rfl
  · exact hsame.map_perm fun x x' ha => by rw [Handle.name_of_bare ha.handle.bare]
  · intro call hcall
    obtain ⟨x, -, rfl⟩ := List.mem_map.mp hcall
    rfl
  · have harns : arns gone ~ arns gone' :=
      hsame.map_perm fun x x' ha => (Handle.arn_of_bare ha.handle.bare).symm
    rw [next, next, hnext, hnext', Engine.commit_cloud, Engine.commit_cloud, hcontext, hgone,
      hgone']
    exact (Cloud.store_deleting_of_perm c harns).symm
  · simpa [next, hnext, hnext', hcontext] using hall

structure Survives (site : Site) : Prop where
  revived : ∃ found,
    (Discovery.assemble (site.cloud.withOutages []) site.engine.context.clusterName).1 = .ok found ∧
      site.restarted.engine.resources = found ∧
      Reordering Revives (holdings site.engine.resources) found
  /-- The next cycle does the same, if what is tainted is still declared. -/
  resumes : ∀ sources now, (Step.sync [] sources now).TextNodes →
    (∀ r ∈ site.engine.resources, r.tainted = true →
      Engine.Declared site.engine.context sources r.owner) → site.Resumes sources now

/-- In a run that starts with nothing committed, and with no load balancer of the cluster or with a
bootstrap that succeeds, a restart loses nothing as long as no load balancer was given up, whichever
calls fail. -/
theorem survives_run (hi : site.Initial) (ht : site.cloud.TextTargets)
    (hn : ∀ step ∈ steps, step.TextNodes)
    (hstart : site.cloud.ofCluster site.engine.context.clusterName = [] ∨
      ∃ outages rest, steps = .bootstrap outages :: rest ∧
        ((Step.bootstrap outages).cycle site).outcome = .ok ())
    (hkept : ∀ arn, ¬ site.Abandoned steps arn) : (site.run steps).Survives := by
  have hm := hi.mirrored_run ht hn
  have hl := hi.legible_run hstart hkept
  have hd := (hi.consistent_run steps).distinct
  generalize site.run steps = reached at hm hl hd
  obtain ⟨found, cloud, hassemble, hstore, hdistinct, hrevived⟩ := Discovery.exists_revived
    (hm.of_store (reached.cloud.store_withOutages []))
    (hl.of_store (reached.cloud.store_withOutages [])) rfl
  obtain ⟨hfound, hcloud⟩ := restarted_of_assemble hassemble
  refine ⟨⟨found, congrArg Prod.fst hassemble, hfound, hrevived⟩, fun sources now hn hs => ?_⟩
  refine resumes_of_holdings now hn hd (hfound ▸ hdistinct) ?_ (hcloud ▸ hstore) hs ?_
  · rw [hfound]
    exact hrevived.holdings_of_revives
  · intro r hr
    rw [hfound] at hr
    obtain ⟨x, -, hx⟩ := hrevived.exists_left hr
    exact hx.tainted

end Site

namespace Shop

/-- An ingress whose service goes, so that its resource is tainted. -/
def orphaned : List Step := [sync [] [ingress] [service], sync [] [ingress] []]

/-- A restart while a resource is tainted that has a load balancer, and the cycle after it, in which
the service is there again. -/
theorem survives_orphaned :
    ((start.run orphaned).engine.resources.map fun r => (r.tainted, r.handle.isSome)) =
        [(true, true)] ∧
      (start.run orphaned).Survives ∧
      (start.run orphaned).Resumes (sources [ingress] [service]) default := by
  have hsurvives : (start.run orphaned).Survives := by
    refine Site.survives_run initial_start nofun ?_ (Or.inl rfl) fun arn ha => ?_
    · intro step hs
      rcases List.mem_pair.mp hs with rfl | rfl <;> exact textNodes_sync _ _ _
    · -- nothing is tainted before the second cycle
      rcases Site.abandoned_cons ha with ⟨-, r, hr, -⟩ | ha
      · exact absurd hr List.not_mem_nil
      rcases Site.abandoned_cons ha with ⟨-, r, hr, -, ht, -⟩ | ha
      · have hnone : ∀ r ∈ (start.next (sync [] [ingress] [service])).engine.resources,
            r.tainted = false := by decide +kernel
        rw [hnone r hr] at ht
        cases ht
      · exact Site.not_abandoned_nil ha
  refine ⟨by decide +kernel, hsurvives, hsurvives.resumes _ _ (textNodes_sync [] _ _) ?_⟩
  rintro r hr -
  have howner : ∀ r ∈ (start.run orphaned).engine.resources,
      r.owner = .ingress ⟨"default", "web"⟩ := by decide +kernel
  exact ⟨[ingress], rfl, ingress, List.mem_singleton_self _, ⟨"default", "web"⟩, by decide +kernel,
    howner r hr⟩

end Shop

end IngressControl
