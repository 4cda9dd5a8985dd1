import IngressControl.Proofs.Entries
import IngressControl.Proofs.Requests
import IngressControl.Proofs.Separate
import IngressControl.Proofs.Shapes

/-! Ingresses whose spec cannot be built. Nothing is called for them, their load balancers stay as
they are, and their entries keep what they had, over any number of cycles; when the spec can be
built again, the engine goes on with the load balancer that it has. -/

namespace IngressControl

namespace Step

/-- In a cycle the spec of the first ingress of an identity cannot be built. -/
def Taints (context : Context) (id : Identity) (step : Step) : Prop :=
  ∃ fault, step.Specifies context id (.error fault)

/-- In a cycle it can be built. -/
def Builds (context : Context) (id : Identity) (spec : DesiredSpec) (step : Step) : Prop :=
  step.Specifies context id (.ok spec)

theorem Specifies.isCycle {context : Context} {id : Identity} {outcome : Except Fault DesiredSpec}
    {step : Step} (h : step.Specifies context id outcome) : step.IsCycle := by
  cases step with
  | bootstrap outages => cases h
  | sync outages sources now => trivial

theorem Fails.isCycle {step : Step} (h : step.Fails) : step.IsCycle := by
  cases step with
  | bootstrap outages => cases h
  | sync outages sources now => trivial

theorem IsCycle.logged {step : Step} (h : step.IsCycle) (site : Site) : step.Logged site := by
  cases step with
  | bootstrap outages => cases h
  | sync outages sources now => exact logged_sync site outages sources now

end Step

namespace Site

structure Keeps (id : Identity) (before after : Site) : Prop where
  desired : (after.entry id).bind Resource.desired = (before.entry id).bind Resource.desired
  handle : (after.entry id).bind Resource.handle = (before.entry id).bind Resource.handle
  untouched : ∀ h, (before.entry id).bind Resource.handle = some h →
    Cloud.SameAt h.arn before.cloud after.cloud

namespace Keeps

variable {id : Identity} {a b c : Site}

theorem refl (id : Identity) (site : Site) : Keeps id site site :=
  ⟨rfl, rfl, fun _ _ => .refl _ _⟩

theorem trans (h : Keeps id a b) (h' : Keeps id b c) : Keeps id a c where
  desired := h'.desired.trans h.desired
  handle := h'.handle.trans h.handle
  untouched handle hh := (h.untouched handle hh).trans (h'.untouched handle (h.handle.trans hh))

end Keeps

variable {site : Site} {id : Identity} {step : Step} {steps : List Step} {h : Handle}

/-- A cycle that fails leaves everything as it is. -/
theorem next_of_fails (hf : step.Fails) :
    (site.next step).engine.resources = site.engine.resources ∧
      (site.next step).cloud.store = site.cloud.store := by
  cases step with
  | bootstrap outages => cases hf
  | sync outages sources now =>
    have hstore := site.cloud.store_withOutages outages
    rcases Engine.sync_cases site.engine sources now (site.cloud.withOutages outages) with
      ⟨-, hres, hcloud⟩ | ⟨planned, hplan, -⟩
    · exact ⟨hres, (congrArg Cloud.store hcloud).trans hstore⟩
    · obtain ⟨ingresses, instances, hl, hn, -⟩ := Engine.plan_cases hplan
      rcases hf with ⟨fault, he⟩ | ⟨fault, he⟩
      · rw [hl] at he
        cases he
      · rw [hn] at he
        cases he

/-- A cycle that fails keeps the entry. -/
theorem keeps_of_fails (hf : step.Fails) : Keeps id site (site.next step) := by
  obtain ⟨hres, hstore⟩ := next_of_fails hf
  have hentry : (site.next step).entry id = site.entry id := by rw [entry, hres, ← entry]
  exact ⟨by rw [hentry], by rw [hentry], fun _ _ => .of_store hstore⟩

section Tainting

variable {outages : List Outage} {sources : Sources} {now : Moment} {fault : Fault}

/-- What a tainting cycle does: its plan has the tainted entry, and commits it as it is. -/
theorem exists_split_of_taints (hr : site.Regular)
    (ht : (Step.sync outages sources now).Specifies site.engine.context id (.error fault)) :
    ∃ before after, Engine.plan site.engine.context sources site.engine.resources =
        .ok (before ++ Engine.taintedResource id (site.entry id) fault :: after) ∧
      ResourceSet.Distinct (before ++ Engine.taintedResource id (site.entry id) fault :: after) ∧
      (site.next (.sync outages sources now)).entry id =
        some (Engine.taintedResource id (site.entry id) fault) := by
  obtain ⟨before, after, hplan, hd⟩ := Engine.exists_split_of_specifies hr.distinct ht
  refine ⟨before, after, hplan, hd, ?_⟩
  have hsync : site.engine.sync sources now (site.cloud.withOutages outages) = _ :=
    Engine.sync_of_plan hplan
  have hnext : (site.next (.sync outages sources now)).entry id =
      ((site.engine.sync sources now (site.cloud.withOutages outages)).engine.resources).find?
        (.ingress id) := rfl
  rw [hnext, hsync, Engine.find?_commit_of_split hd Engine.owner_resourceFor]
  rfl

/-- In a tainting cycle nobody who is not tainted has the load balancer of the ingress. -/
theorem arn_ne_of_taints (hr : site.Regular) {before after : ResourceSet}
    (hplan : Engine.plan site.engine.context sources site.engine.resources =
      .ok (before ++ Engine.taintedResource id (site.entry id) fault :: after))
    (hh : (site.entry id).bind Resource.handle = some h) {r : Resource}
    (hmem : r ∈ before ++ Engine.taintedResource id (site.entry id) fault :: after)
    (ha : r.handle.map Handle.arn = some h.arn) :
    r = Engine.taintedResource id (site.entry id) fault := by
  have hs := hr.separate.subperm (Engine.holdings_plan_subperm hplan)
  refine hs.eq_of_arn hmem (List.mem_append_right _ List.mem_cons_self) ha ?_
  exact congrArg (Option.map Handle.arn) hh

/-- A cycle that taints the entry keeps its load balancer and what it wanted. -/
theorem keeps_of_taints (hr : site.Regular)
    (ht : (Step.sync outages sources now).Specifies site.engine.context id (.error fault)) :
    Keeps id site (site.next (.sync outages sources now)) := by
  obtain ⟨before, after, hplan, hd, hentry⟩ := exists_split_of_taints hr ht
  refine ⟨by rw [hentry]; rfl, by rw [hentry]; rfl, fun h hh => ?_⟩
  have hstore := site.cloud.store_withOutages outages
  have hs := hr.separate.of_store hstore
  obtain ⟨r, hmem, ho, hhandle⟩ := mem_of_entry hh
  have hspent := hs.spent_of_mem hmem hhandle
  have hcloud : (site.next (.sync outages sources now)).cloud =
      Engine.cloudAfter site.engine.context now (site.cloud.withOutages outages)
        (before ++ Engine.taintedResource id (site.entry id) fault :: after) :=
    congrArg Cycle.cloud (Engine.sync_of_plan hplan)
  rw [hcloud]
  refine .trans (.of_store hstore) (Engine.sameAt_cloudAfter hs.filed hspent ?_)
  intro p hp huntainted ha
  rw [arn_ne_of_taints hr hplan hh hp ha] at huntainted
  cases huntainted

/-- No call is made for an entry that a cycle taints. -/
theorem requestsFor_of_taints (hr : site.Regular)
    (ht : (Step.sync outages sources now).Specifies site.engine.context id (.error fault)) :
    requestsFor id ((Step.sync outages sources now).requests site) = [] := by
  obtain ⟨before, after, hplan, hd, -⟩ := exists_split_of_taints hr ht
  rw [Step.requests, Engine.requests_of_plan hplan, Engine.requestsFor_issued_of_split hd rfl]
  exact Engine.requestsOf_of_tainted rfl

end Tainting

/-- Over cycles that taint an ingress or fail its entry keeps what it had. -/
theorem keeps_run (hr : site.Regular)
    (hs : ∀ step ∈ steps, step.Taints site.engine.context id ∨ step.Fails) :
    Keeps id site (site.run steps) := by
  induction steps using List.reverseRecOn with
  | nil => exact .refl id site
  | append_singleton steps step ih =>
    have hbefore : ∀ s ∈ steps, s.Taints site.engine.context id ∨ s.Fails :=
      fun s hmem => hs s (by simp [hmem])
    have hcycles : ∀ s ∈ steps, s.IsCycle := by
      intro s hmem
      rcases hbefore s hmem with ⟨fault, ht⟩ | hf
      · exact ht.isCycle
      · exact hf.isCycle
    have hreg := hr.run hcycles
    rw [run_append_singleton]
    refine (ih hbefore).trans ?_
    rcases hs step (by simp) with ⟨fault, ht⟩ | hf
    · rw [← context_run site steps] at ht
      cases step with
      | bootstrap outages => cases ht
      | sync outages sources now => exact keeps_of_taints hreg ht
    · exact keeps_of_fails hf

/-- Whoever has the load balancer of this name is the tainted entry of an ingress. -/
structure Guarded (id : Identity) (arn : String) (site : Site) : Prop where
  filed : site.cloud.Filed
  spent : site.cloud.Spent arn
  tainted : ∀ r ∈ site.engine.resources, r.handle.map Handle.arn = some arn →
    r.tainted = true ∧ r.owner = .ingress id

section Guard

variable {arn : String} {outages : List Outage} {sources : Sources} {now : Moment}
  {planned : ResourceSet}

/-- A plan in which only the tainted entry has the load balancer leads to a set of that kind. -/
theorem guarded_of_plan (hf : site.cloud.Filed) (hspent : site.cloud.Spent arn)
    (hplan : Engine.plan site.engine.context sources site.engine.resources = .ok planned)
    (hp : ∀ r ∈ planned, r.handle.map Handle.arn = some arn →
      r.tainted = true ∧ r.owner = .ingress id) :
    (site.next (.sync outages sources now)).Guarded id arn := by
  have hnext : site.next (.sync outages sources now) =
      ⟨(site.engine.sync sources now (site.cloud.withOutages outages)).engine,
        (site.engine.sync sources now (site.cloud.withOutages outages)).cloud⟩ := rfl
  have hnone : ∀ p ∈ planned, p.tainted = false → p.handle.map Handle.arn ≠ some arn := by
    intro p hp' ht ha
    rw [(hp p hp' ha).1] at ht
    cases ht
  have hf : (site.cloud.withOutages outages).Filed := hf
  have hspent : (site.cloud.withOutages outages).Spent arn := hspent
  rw [hnext, Engine.sync_of_plan hplan]
  refine ⟨Engine.filed_cloudAfter hf planned, Engine.spent_cloudAfter hspent planned,
    fun r hr ha => ?_⟩
  obtain ⟨hmem, -⟩ := List.mem_filter.mp hr
  exact hp r (Engine.tainted_of_mem_resourcesAfter hf hspent hnone hmem ha).1 ha

/-- Who has the load balancer in a plan is tainted, as long as the spec is not built. -/
theorem Guarded.tainted_of_mem_plan (hg : site.Guarded id arn)
    (hn : ∀ spec, ¬ (Step.sync outages sources now).Builds site.engine.context id spec)
    (hplan : Engine.plan site.engine.context sources site.engine.resources = .ok planned)
    {r : Resource} (hr : r ∈ planned) (ha : r.handle.map Handle.arn = some arn) :
    r.tainted = true ∧ r.owner = .ingress id := by
  obtain ⟨ingresses, instances, hl, hnodes, rfl⟩ := Engine.plan_cases hplan
  rcases List.mem_append.mp hr with hr | hr
  · obtain ⟨⟨id', ingress⟩, he, rfl⟩ := List.mem_map.mp hr
    rw [Engine.handle_resourceOf] at ha
    obtain ⟨handle, hhandle, rfl⟩ := Option.map_eq_some_iff.mp ha
    obtain ⟨p, hp, hh⟩ := Option.bind_eq_some_iff.mp hhandle
    obtain ⟨hmem, ho⟩ := Engine.owner_of_find? hp
    obtain ⟨-, ho'⟩ := hg.tainted p hmem (by rw [hh]; rfl)
    obtain rfl := Owner.ingress.inj (ho'.symm.trans ho)
    dsimp only
    rw [Engine.resourceOf_eq]
    cases hs : Ingress.desiredSpec ingress (Service.nodePort sources.services) instances with
    | error fault => exact ⟨rfl, rfl⟩
    | ok spec =>
      exact absurd ⟨ingresses, instances, ingress, hl, hnodes, Engine.mem_owned.mp he, hs⟩ (hn spec)
  · obtain ⟨p, hp, horphan, rfl⟩ := Engine.mem_orphans.mp hr
    obtain ⟨ht, -, -⟩ := Engine.isOrphan_iff.mp horphan
    rw [(hg.tainted p hp ha).1] at ht
    cases ht

/-- The guard stays as long as the spec is not built. -/
theorem Guarded.next (hg : site.Guarded id arn) (hc : step.IsCycle)
    (hn : ∀ spec, ¬ step.Builds site.engine.context id spec) : (site.next step).Guarded id arn := by
  cases step with
  | bootstrap outages => cases hc
  | sync outages sources now =>
    rcases Engine.sync_cases site.engine sources now (site.cloud.withOutages outages) with
      ⟨-, hres, hcloud⟩ | ⟨planned, hplan, hsync⟩
    · have hres : (site.next (.sync outages sources now)).engine.resources =
          site.engine.resources := hres
      have hcloud : (site.next (.sync outages sources now)).cloud =
          site.cloud.withOutages outages := hcloud
      refine ⟨?_, ?_, ?_⟩
      · rw [hcloud]
        exact hg.filed
      · rw [hcloud]
        exact hg.spent
      · rw [hres]
        exact hg.tainted
    · exact guarded_of_plan hg.filed hg.spent hplan fun r hr ha =>
        hg.tainted_of_mem_plan hn hplan hr ha

theorem Guarded.run (hg : site.Guarded id arn)
    (hs : ∀ step ∈ steps, step.IsCycle ∧ ∀ spec, ¬ step.Builds site.engine.context id spec) :
    (site.run steps).Guarded id arn := by
  induction steps using List.reverseRecOn with
  | nil => exact hg
  | append_singleton steps step ih =>
    obtain ⟨hc, hn⟩ := hs step (by simp)
    rw [run_append_singleton]
    refine (ih fun s hmem => hs s (by simp [hmem])).next hc ?_
    simpa

/-- A cycle that taints an ingress sets up the guard of its load balancer. -/
theorem guarded_of_taints (hr : site.Regular) (ht : step.Taints site.engine.context id)
    (hh : (site.entry id).bind Resource.handle = some h) : (site.next step).Guarded id h.arn := by
  obtain ⟨fault, ht⟩ := ht
  cases step with
  | bootstrap outages => cases ht
  | sync outages sources now =>
    obtain ⟨before, after, hplan, -, -⟩ := exists_split_of_taints hr ht
    obtain ⟨r, hmem, ho, hhandle⟩ := mem_of_entry hh
    have hspent := hr.separate.spent_of_mem hmem hhandle
    refine guarded_of_plan hr.separate.filed hspent hplan fun p hp ha => ?_
    rw [arn_ne_of_taints hr hplan hh hp ha]
    exact ⟨rfl, rfl⟩

/-- What is deleted is a left-over of the previous set. -/
theorem exists_of_delete {x : Issued} (hx : x ∈ (Step.sync outages sources now).requests site)
    (hk : x.request = .delete h) :
    ∃ p ∈ site.engine.resources, p.tainted = false ∧ p.handle = some h ∧
      ¬ Engine.Declared site.engine.context sources p.owner := by
  rw [Step.requests, Engine.requests] at hx
  split at hx
  · rename_i planned hplan
    obtain ⟨hmem, ht, cloud', hcall⟩ := Engine.mem_issued hx
    have hdelete : x.resource.desired = none ∧ x.resource.handle = some h := by
      rcases Engine.mem_program_cases hcall with ⟨spec, -, -, he⟩ | ⟨spec, h', -, -, he⟩ |
        ⟨h', hd, hh, he⟩ | ⟨spec, h', batch, -, he | he⟩
      · cases hk.symm.trans he
      · cases hk.symm.trans he
      · obtain rfl := Request.delete.inj (hk.symm.trans he)
        exact ⟨hd, hh⟩
      · cases hk.symm.trans he
      · cases hk.symm.trans he
    rcases Engine.mem_plan_cases hplan hmem with htainted | ⟨-, spec, hd⟩ | ⟨p, hp, hp', hn, -, he⟩
    · rw [htainted.1] at ht
      cases ht
    · rw [hd] at hdelete
      cases hdelete.1
    · rw [he] at hdelete
      exact ⟨p, hp, hp', hdelete.2, hn⟩
  · cases hx

/-- Under the guard no load balancer of the name is deleted. -/
theorem Guarded.delete_ne (hg : site.Guarded id arn) {x : Issued} (hx : x ∈ step.requests site)
    (hk : x.request = .delete h) : h.arn ≠ arn := by
  cases step with
  | bootstrap outages => cases hx
  | sync outages sources now =>
    obtain ⟨p, hp, ht, hh, -⟩ := exists_of_delete hx hk
    intro he
    rw [(hg.tainted p hp (by rw [hh, ← he]; rfl)).1] at ht
    cases ht

/-- Nor is the load balancer of an ingress in a cycle that taints it. -/
theorem delete_ne_of_taints (hr : site.Regular) (ht : step.Taints site.engine.context id)
    (hh : (site.entry id).bind Resource.handle = some h) {x : Issued}
    (hx : x ∈ step.requests site) {h' : Handle} (hk : x.request = .delete h') : h'.arn ≠ h.arn := by
  obtain ⟨fault, ht⟩ := ht
  cases step with
  | bootstrap outages => cases ht
  | sync outages sources now =>
    obtain ⟨p, hp, -, hp', hn⟩ := exists_of_delete hx hk
    obtain ⟨r, hmem, ho, hhandle⟩ := mem_of_entry hh
    intro he
    -- the left-over would be the entry, whose ingress is listed
    have hsame : p = r := hr.separate.eq_of_arn hp hmem
      (congrArg (Option.map Handle.arn) hp') (by rw [hhandle, he]; rfl)
    obtain ⟨ingresses, instances, ingress, hl, -, hf, -⟩ := ht
    refine hn ⟨ingresses, hl, ingress, List.mem_of_find?_eq_some hf, id, ?_, hsame ▸ ho⟩
    simpa using List.find?_some hf

end Guard

section Resuming

variable {spec : DesiredSpec}

/-- When the spec of an ingress with a load balancer can be built, the engine updates the load
balancer that it has. -/
theorem resumed_of_builds (hr : site.Regular) (hb : step.Builds site.engine.context id spec)
    (hh : (site.entry id).bind Resource.handle = some h) :
    (∃ cloud, requestsFor id (step.requests site) =
      (Engine.updateProgram site.engine.context h spec).requests cloud) ∧
    ∃ r h', (site.next step).entry id = some r ∧ r.tainted = false ∧ r.desired = some spec ∧
      r.handle = some h' ∧ h'.arn = h.arn := by
  cases step with
  | bootstrap outages => cases hb
  | sync outages sources now =>
    obtain ⟨before, after, hplan, hd⟩ := Engine.exists_split_of_specifies hr.distinct hb
    set r := Engine.resourceFor id (site.engine.resources.find? (.ingress id)) (.ok spec) with hdef
    set cloud := Engine.cloudAfter site.engine.context now (site.cloud.withOutages outages) before
      with hcloud
    have ho : r.owner = .ingress id := Engine.owner_resourceFor
    have hwanted : r.desired = some spec := rfl
    have hhandle : r.handle = some h := Engine.handle_resourceFor.trans hh
    constructor
    · refine ⟨cloud, ?_⟩
      rw [Step.requests, Engine.requests_of_plan hplan, Engine.requestsFor_issued_of_split hd ho,
        Engine.requestsOf_of_untainted rfl, Engine.program, hwanted, hhandle]
    · -- the entry wants the spec, so it is kept whatever its calls come to
      obtain ⟨ht', hd', -⟩ :=
        Engine.reconcile_cases (r := r) site.engine.context now cloud rfl
      have hkept : Engine.isKept (Engine.reconcile site.engine.context now cloud r).resource =
          true := by
        simp [Engine.isKept, hd', hwanted]
      have hentry : (site.next (.sync outages sources now)).entry id =
          some (Engine.reconcile site.engine.context now cloud r).resource := by
        have hnext : (site.next (.sync outages sources now)).entry id =
            ((site.engine.sync sources now (site.cloud.withOutages outages)).engine.resources).find?
              (.ingress id) := rfl
        rw [hnext, Engine.sync_of_plan hplan, Engine.find?_commit_of_split hd ho,
          if_pos hkept]
      have hfirst : (site.cloud.withOutages outages).Filed := hr.separate.filed
      have hfiled : cloud.Filed := Engine.filed_cloudAfter hfirst before
      obtain ⟨h', hh', he⟩ :=
        (Engine.reconcile_moves site.engine.context now cloud r).handle_of_wanted hfiled hwanted
          hhandle
      exact ⟨_, h', hentry, ht', hd'.trans hwanted, hh', he⟩

end Resuming

/-- The load balancer of an ingress is safe while the spec of the ingress cannot be built. -/
structure TaintSafe (site : Site) (id : Identity) : Prop where
  /-- The calls that are spoken of here are those that the cloud notes down. -/
  logged : ∀ steps : List Step, ∀ step : Step, step.IsCycle → step.Logged (site.run steps)
  /-- In a cycle in which the spec cannot be built there is no call for the ingress, the load
  balancer stays as it is, and the new entry is tainted and has the spec and the handle of the
  previous one. -/
  spared : ∀ step : Step, step.Taints site.engine.context id →
    requestsFor id (step.requests site) = [] ∧ Keeps id site (site.next step) ∧
      ∃ r, (site.next step).entry id = some r ∧ r.tainted = true
  carried : ∀ steps : List Step,
    (∀ step ∈ steps, step.Taints site.engine.context id ∨ step.Fails) →
    Keeps id site (site.run steps)
  /-- When the spec can be built again and there is a handle, its load balancer is updated and none
  is created. -/
  resumed : ∀ steps : List Step,
    (∀ step ∈ steps, step.Taints site.engine.context id ∨ step.Fails) →
    ∀ step : Step, ∀ spec h, step.Builds site.engine.context id spec →
    (site.entry id).bind Resource.handle = some h →
    (∃ cloud, requestsFor id (step.requests (site.run steps)) =
      (Engine.updateProgram site.engine.context h spec).requests cloud) ∧
    (∀ x ∈ requestsFor id (step.requests (site.run steps)), x.2.isCreate = false) ∧
    ∃ r h', ((site.run steps).next step).entry id = some r ∧ r.tainted = false ∧
      r.desired = some spec ∧ r.handle = some h' ∧ h'.arn = h.arn
  /-- From a cycle that taints the ingress up to one in which the spec can be built nobody deletes
  the load balancer. -/
  undeleted : ∀ step : Step, ∀ h, step.Taints site.engine.context id →
    (site.entry id).bind Resource.handle = some h →
    (∀ x ∈ step.requests site, ∀ h', x.request = .delete h' → h'.arn ≠ h.arn) ∧
    ∀ steps : List Step,
      (∀ later ∈ steps, later.IsCycle ∧ ∀ spec, ¬ later.Builds site.engine.context id spec) →
      ∀ last : Step, ∀ x ∈ last.requests ((site.next step).run steps), ∀ h',
        x.request = .delete h' → h'.arn ≠ h.arn

theorem Regular.taintSafe (hr : site.Regular) (id : Identity) : site.TaintSafe id where
  logged steps step hc := hc.logged _
  spared step ht := by
    obtain ⟨fault, ht⟩ := ht
    cases step with
    | bootstrap outages => cases ht
    | sync outages sources now =>
      obtain ⟨-, -, -, -, hentry⟩ := exists_split_of_taints hr ht
      exact ⟨requestsFor_of_taints hr ht, keeps_of_taints hr ht, _, hentry, rfl⟩
  carried steps hs := keeps_run hr hs
  resumed steps hs step spec h hb hh := by
    have hcycles : ∀ s ∈ steps, s.IsCycle := by
      intro s hmem
      rcases hs s hmem with ⟨fault, ht⟩ | hf
      · exact ht.isCycle
      · exact hf.isCycle
    have hhandle := (keeps_run hr hs).handle.trans hh
    rw [← context_run site steps] at hb ⊢
    obtain ⟨⟨cloud, he⟩, hentry⟩ := resumed_of_builds (hr.run hcycles) hb hhandle
    refine ⟨⟨cloud, he⟩, fun x hx => ?_, hentry⟩
    rw [he] at hx
    rcases Engine.mem_updateProgram hx with hk | ⟨h', batch, hk | hk⟩
    all_goals
      rw [hk]
      rfl
  undeleted step h ht hh := by
    refine ⟨fun x hx h' hk => delete_ne_of_taints hr ht hh hx hk, ?_⟩
    intro steps hs last x hx h' hk
    have hguard : (site.next step).Guarded id h.arn := guarded_of_taints hr ht hh
    refine Guarded.delete_ne (hguard.run ?_) hx hk
    simpa

/-- Wherever a run of cycles gets that starts with different owners and different load balancers,
the load balancers of ingresses whose specs cannot be built are safe, whatever is listed and
whichever calls fail. -/
theorem taintSafe_run (hr : site.Regular) (hs : ∀ step ∈ steps, step.IsCycle) (id : Identity) :
    (site.run steps).TaintSafe id := (hr.run hs).taintSafe id

end Site

namespace Shop

/-- Without its service the spec of the ingress cannot be built. -/
theorem taints_without_service :
    (sync [] [ingress] []).Taints start.engine.context ⟨"default", "web"⟩ := by
  refine ⟨.serviceMissing "default/web", [ingress], [.string "i-1"], ingress, rfl, ?_⟩
  decide +kernel

/-- After a first cycle the ingress has a load balancer, which is safe when its service goes. -/
theorem taintSafe_after_cycle :
    start.Regular ∧ (∀ step ∈ [sync [] [ingress] [service]], step.IsCycle) ∧
      ((start.run [sync [] [ingress] [service]]).entry ⟨"default", "web"⟩).map
        (fun r => (r.tainted, r.handle.isSome)) = some (false, true) ∧
      (sync [] [ingress] []).Taints (start.run [sync [] [ingress] [service]]).engine.context
        ⟨"default", "web"⟩ ∧
      (start.run [sync [] [ingress] [service]]).TaintSafe ⟨"default", "web"⟩ := by
  have hr : start.Regular := initial_start.consistent.regular
  have hs : ∀ step ∈ [sync [] [ingress] [service]], step.IsCycle := by
    intro step hmem
    obtain rfl := List.mem_singleton.mp hmem
    trivial
  refine ⟨hr, hs, by decide +kernel, ?_, Site.taintSafe_run hr hs _⟩
  simpa using taints_without_service

end Shop

end IngressControl
