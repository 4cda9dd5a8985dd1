import IngressControl.Proofs.Entries
import IngressControl.Proofs.Outages
import IngressControl.Proofs.Separate

/-! What the other ingresses make of one ingress: nothing. Two cycles that find the same for an
ingress, whatever else they find, make the same calls for it and leave the same behind. -/

namespace IngressControl

/-- A resource but for the name of its load balancer within the service and for the time. -/
def Resource.outline (r : Resource) : Resource :=
  { r with handle := r.handle.map Handle.anonymous, lastReconciled := none }

namespace Cloud

variable {arn : String} {c c' d d' : Cloud}

/-- Where the same stands under a name, clouds match under it. -/
theorem SameAt.matches (hs : SameAt arn c c') (hf : c.Filed) (hl : c'.limit = c.limit) :
    c.Matches arn arn c' where
  limit := hl
  balancer := by
    rw [hs.balancer]
    cases hb : Ledger.get? arn c.balancers with
    | none => exact .none
    | some b =>
      obtain rfl := hf _ _ hb
      exact .some (.refl b)
  targets := hs.targets

theorem Matches.sameAt (hm : c.Matches arn arn c') : SameAt arn c c' where
  balancer := Handle.Renamed.eq_of_rel hm.balancer
  targets := hm.targets

/-- Clouds match as long as each keeps what stands under its name. -/
theorem Matches.frame {arn' : String} (hm : c.Matches arn arn' c') (hs : SameAt arn c d)
    (hs' : SameAt arn' c' d') (hl : d.limit = c.limit) (hl' : d'.limit = c'.limit) :
    d.Matches arn arn' d' where
  limit := by rw [hl, hl', hm.limit]
  balancer := by
    rw [hs.balancer, hs'.balancer]
    exact hm.balancer
  targets := by rw [hs.targets, hs'.targets, hm.targets]

end Cloud

namespace Engine

variable {context : Context}

structure Reconciled.Concordant (former : Option Handle) (x y : Reconciled) : Prop where
  resource : y.resource.outline = x.resource.outline
  kept : ∀ h, former = some h → y.resource.handle = x.resource.handle ∧
    x.cloud.Matches h.arn h.arn y.cloud
  current : ∀ h h', x.resource.handle = some h → y.resource.handle = some h' →
    x.cloud.Matches h.arn h'.arn y.cloud

section Reconciling

variable {r : Resource} {c c' : Cloud} {refusal : List Call → Option String}

/-- A resource that is reconciled on clouds in which its load balancer stands alike, and which
refuse the same calls for it, makes the same calls and is left the same. -/
theorem concordant_reconcile (now now' : Moment) (hregion : c'.region = c.region)
    (hlimit : c'.limit = c.limit) (hh : ∀ h, r.handle = some h → c.Matches h.arn h.arn c')
    (hx : RefusedAs refusal [] (requestsOf context c r))
    (hx' : RefusedAs refusal [] (requestsOf context c' r)) :
    anonymously (requestsOf context c' r) = anonymously (requestsOf context c r) ∧
      (reconcile context now c r).Concordant r.handle (reconcile context now' c' r) := by
  cases ht : r.tainted with
  | true =>
    rw [requestsOf_of_tainted ht, requestsOf_of_tainted ht, reconcile_of_tainted ht,
      reconcile_of_tainted ht]
    refine ⟨rfl, rfl, fun h hr => ⟨rfl, hh h hr⟩, fun h h' hr hr' => ?_⟩
    obtain rfl := Option.some.inj (hr.symm.trans hr')
    exact hh h hr
  | false =>
    rw [requestsOf_of_untainted ht] at hx hx' ⊢
    rw [requestsOf_of_untainted ht]
    have hprogram := concordant_program hregion hlimit hh hx hx'
    have hrun := run_program context r c
    have hrun' := run_program context r c'
    obtain ⟨hcloud, hhandle⟩ := reconcile_of_untainted context now c ht
    obtain ⟨hcloud', hhandle'⟩ := reconcile_of_untainted context now' c' ht
    refine ⟨hprogram.requests, ?_, ?_, ?_⟩
    · have houtcome := hprogram.outcome
      have hanonymous := hprogram.handle
      rw [hrun, hrun'] at houtcome hanonymous
      dsimp only at houtcome hanonymous
      have hnot : ¬ r.tainted = true := by simp [ht]
      rw [reconcile, reconcile, if_neg hnot, if_neg hnot]
      dsimp only
      rw [houtcome]
      cases (apply context c r).outcome with
      | ok status => simp only [Resource.outline, hanonymous]
      | error fault => simp only [Resource.outline, hanonymous]
    · intro h hr
      have hkept := hprogram.kept h hr
      rw [hrun, hrun'] at hkept
      rw [hcloud, hhandle, hcloud', hhandle']
      exact hkept
    · have hcurrent := hprogram.current
      rw [hrun, hrun'] at hcurrent
      rw [hcloud, hhandle, hcloud', hhandle']
      exact hcurrent

end Reconciling

end Engine

structure Round where
  site : Site
  outages : List Outage
  sources : Sources
  now : Moment

namespace Round

variable {id : Identity} {x y : Round} {planned : ResourceSet} {r : Resource} {c : Cloud}

def step (x : Round) : Step := .sync x.outages x.sources x.now

def after (x : Round) : Site := x.site.next x.step

theorem logged (x : Round) : x.step.Logged x.site :=
  Step.logged_sync x.site x.outages x.sources x.now

def requestsFor (x : Round) (id : Identity) : List (Cloud × Request) :=
  IngressControl.requestsFor id (x.step.requests x.site)

/-- The first ingress of an identity among those that the engine is to look after. -/
def first (x : Round) (id : Identity) : Option Document :=
  match x.sources.ingresses.list with
  | .ok ingresses =>
    ingresses.find? fun i => Engine.owner? x.site.engine.context i == some id
  | .error _ => none

def Plans (x : Round) (planned : ResourceSet) : Prop :=
  Engine.plan x.site.engine.context x.sources x.site.engine.resources = .ok planned

/-- A cycle reconciles a resource for an ingress on a cloud: up to then and from then on nobody
touches the load balancer of the resource. -/
structure Reconciles (id : Identity) (x : Round) (r : Resource) (c : Cloud) : Prop where
  region : c.region = x.site.cloud.region
  limit : c.limit = x.site.cloud.limit
  requests : x.requestsFor id = Engine.requestsOf x.site.engine.context c r
  entry : x.after.entry id =
    if Engine.isKept (Engine.reconcile x.site.engine.context x.now c r).resource
      then some (Engine.reconcile x.site.engine.context x.now c r).resource
      else none
  before : ∀ h, r.handle = some h → Cloud.SameAt h.arn x.site.cloud c
  since : ∀ h, r.handle = some h ∨
      (Engine.reconcile x.site.engine.context x.now c r).resource.handle = some h →
    Cloud.SameAt h.arn (Engine.reconcile x.site.engine.context x.now c r).cloud x.after.cloud
  settings : x.after.cloud.limit =
    (Engine.reconcile x.site.engine.context x.now c r).cloud.limit

theorem after_of_plans (hp : x.Plans planned) :
    x.after.engine = (x.site.engine.commit x.now (x.site.cloud.withOutages x.outages)
        planned).engine ∧
      x.after.cloud = Engine.cloudAfter x.site.engine.context x.now
        (x.site.cloud.withOutages x.outages) planned := by
  have hsync : x.site.engine.sync x.sources x.now (x.site.cloud.withOutages x.outages) =
      x.site.engine.commit x.now (x.site.cloud.withOutages x.outages) planned :=
    Engine.sync_of_plan hp
  exact ⟨congrArg Cycle.engine hsync, congrArg Cycle.cloud hsync⟩

/-- Every planned entry is reconciled on some service of the commit. -/
theorem exists_reconciles (hr : x.site.Regular) (hp : x.Plans planned)
    (hf : planned.find? (.ingress id) = some r) : ∃ c, x.Reconciles id r c := by
  obtain ⟨hmem, ho⟩ := Engine.owner_of_find? hf
  have hd := Engine.distinct_plan hr.distinct hp
  have hs := (hr.separate.of_store (x.site.cloud.store_withOutages x.outages)).subperm
    (Engine.holdings_plan_subperm hp)
  obtain ⟨before, rest, rfl⟩ := List.append_of_mem hmem
  obtain ⟨hleft, hright⟩ := Engine.owner_ne_of_split hd ho
  rw [← ho] at hleft hright
  obtain ⟨hengine, hcloud⟩ := after_of_plans hp
  set context := x.site.engine.context
  set cloud := x.site.cloud.withOutages x.outages with hcloudDef
  set c := Engine.cloudAfter context x.now cloud before with hc
  set done := Engine.reconcile context x.now c r with hdone
  have hmoves := Engine.reconcile_moves context x.now c r
  -- when the turn of the resource comes, it and those behind it have load balancers of their own
  have hturn : Separate c (holdings (r :: rest)) := Engine.separate_rest hs
  have hthen : Separate done.cloud (holdings (done.resource :: rest)) := by
    have hheld : Separate done.cloud (held r.owner done.resource.handle ++ holdings rest) :=
      hmoves.separate hturn
    rw [← Engine.reconcile_owner context x.now c r] at hheld
    exact hheld
  have hlast : x.after.cloud = Engine.cloudAfter context x.now done.cloud rest := by
    rw [hcloud, Engine.cloudAfter_append, Engine.cloudAfter_cons]
  have hsettings : c.region = cloud.region ∧ c.limit = cloud.limit :=
    Engine.settings_cloudAfter cloud before
  refine ⟨c, hsettings.1, hsettings.2, ?_, ?_, fun h hh => ?_, ?_, ?_⟩
  · rw [requestsFor, step, Step.requests, Engine.requests_of_plan hp,
      Engine.requestsFor_issued_of_split hd ho]
  · rw [Site.entry, hengine, Engine.find?_commit_of_split hd ho]
  · have hfirst : Cloud.SameAt h.arn cloud c := by
      refine Engine.sameAt_cloudAfter hs.filed (hs.spent_of_mem hmem hh) fun p hp _ => ?_
      exact hs.arn_ne hmem (List.mem_append_left _ hp) (hleft p hp) hh
    have hstore : Cloud.SameAt h.arn x.site.cloud cloud :=
      .of_store (x.site.cloud.store_withOutages x.outages)
    exact hstore.trans hfirst
  · rw [hlast]
    rintro h (hh | hh)
    · have hspent := hmoves.spent (hturn.spent_of_mem List.mem_cons_self hh)
      refine Engine.sameAt_cloudAfter hthen.filed hspent fun p hp _ => ?_
      exact hturn.arn_ne List.mem_cons_self (List.mem_cons_of_mem r hp) (hright p hp) hh
    · have hspent := hthen.spent_of_mem List.mem_cons_self hh
      refine Engine.sameAt_cloudAfter hthen.filed hspent fun p hp _ => ?_
      refine hthen.arn_ne List.mem_cons_self (List.mem_cons_of_mem _ hp) ?_ hh
      simpa [hdone] using hright p hp
  · rw [hlast]
    exact (Engine.settings_cloudAfter done.cloud rest).2

/-- A cycle that plans nothing for an ingress makes no calls for it and leaves its load balancer as
it is. -/
theorem spares_of_find?_eq_none (hr : x.site.Regular) (hp : x.Plans planned)
    (hf : planned.find? (.ingress id) = none) :
    x.requestsFor id = [] ∧ x.after.entry id = none ∧
      ∀ h, (x.site.entry id).bind Resource.handle = some h →
        Cloud.SameAt h.arn x.site.cloud x.after.cloud := by
  have hn := Engine.find?_eq_none_iff.mp hf
  have hs := hr.separate.of_store (x.site.cloud.store_withOutages x.outages)
  obtain ⟨hengine, hcloud⟩ := after_of_plans hp
  refine ⟨?_, ?_, fun h hh => ?_⟩
  · rw [requestsFor, step, Step.requests, Engine.requests_of_plan hp,
      Engine.requestsFor_issued_of_absent hn]
  · rw [Site.entry, hengine, Engine.find?_commit_of_absent hn]
  · obtain ⟨e, hmem, ho, hhandle⟩ := Site.mem_of_entry hh
    have hstore : Cloud.SameAt h.arn x.site.cloud (x.site.cloud.withOutages x.outages) :=
      .of_store (x.site.cloud.store_withOutages x.outages)
    rw [hcloud]
    refine hstore.trans (Engine.sameAt_cloudAfter hs.filed (hs.spent_of_mem hmem hhandle) ?_)
    intro r hr' _ ha
    -- whoever has the load balancer in the plan had it before, and then it is that of the ingress
    obtain ⟨h', hh', he⟩ := Option.map_eq_some_iff.mp ha
    have hheld := (Engine.holdings_plan_subperm hp).subset
      (mem_holdings.mpr ⟨r, hr', rfl, hh'⟩ : (⟨r.owner, h'⟩ : Holding) ∈ holdings planned)
    obtain ⟨p, hp', hpo, hph⟩ := mem_holdings.mp hheld
    have hsame : p = e := hs.eq_of_arn hp' hmem (by rw [hph, Option.map_some, he])
      (by rw [hhandle]; rfl)
    exact hn r hr' (hpo.symm.trans (hsame ▸ ho))

end Round

namespace Engine

variable {r r' : Resource}

@[simp] theorem isKept_outline (r : Resource) : isKept r.outline = isKept r := by
  simp [isKept, Resource.outline]

/-- A resource with a load balancer is kept. -/
@[simp] theorem handle_kept (r : Resource) :
    (if isKept r then some r else none).bind Resource.handle = r.handle := by
  split
  · rfl
  · rename_i hk
    have hnone : r.handle = none := by simp_all [isKept]
    rw [hnone]
    rfl

theorem outline_kept (h : r'.outline = r.outline) :
    (if isKept r' then some r' else none).map Resource.outline =
      (if isKept r then some r else none).map Resource.outline := by
  rw [← isKept_outline r', h, isKept_outline]
  split
  · exact congrArg some h
  · rfl

theorem handle_plannedFor {services : Source} {instances : List Document} {id : Identity}
    {existing : Option Resource} {first : Option Document}
    (h : plannedFor services instances id existing first = some r) :
    r.handle = existing.bind Resource.handle := by
  cases first with
  | some ingress =>
    obtain rfl := Option.some.inj h
    exact handle_resourceFor
  | none =>
    obtain ⟨p, hp, rfl⟩ := Option.map_eq_some_iff.mp h
    rw [(Option.filter_eq_some_iff.mp hp).1]
    rfl

end Engine

namespace Round

variable {id : Identity} {x y : Round} {planned : ResourceSet} {r : Resource} {c : Cloud}

structure Commits (x : Round) : Prop where
  regular : x.site.Regular
  outcome : (x.step.cycle x.site).outcome = .ok ()

/-- Two cycles find the same for an ingress: the same settings, the same entry and the same load
balancer under its name, the same services and nodes, and the same first ingress of the identity, if
there is one. The same calls for it are refused: the calls for it so far tell which. -/
structure Comparable (id : Identity) (x y : Round) : Prop where
  context : y.site.engine.context = x.site.engine.context
  region : y.site.cloud.region = x.site.cloud.region
  limit : y.site.cloud.limit = x.site.cloud.limit
  services : y.sources.services = x.sources.services
  nodes : y.sources.nodes = x.sources.nodes
  first : y.first id = x.first id
  entry : y.site.entry id = x.site.entry id
  balancer : ∀ h, (x.site.entry id).bind Resource.handle = some h →
    Cloud.SameAt h.arn x.site.cloud y.site.cloud
  refused : ∃ refusal, RefusedAs refusal [] (x.requestsFor id) ∧
    RefusedAs refusal [] (y.requestsFor id)

/-- Two cycles come to the same for an ingress: they leave the same entry and make the same calls,
but for names that the service gives, and what was and what is its load balancer stands in both
clouds alike. The calls are those that the clouds note down. -/
structure Concordant (id : Identity) (x y : Round) : Prop where
  logged : x.step.Logged x.site ∧ y.step.Logged y.site
  entry : (y.after.entry id).map Resource.outline = (x.after.entry id).map Resource.outline
  requests : anonymously (y.requestsFor id) = anonymously (x.requestsFor id)
  kept : ∀ h, (x.site.entry id).bind Resource.handle = some h →
    (y.after.entry id).bind Resource.handle = (x.after.entry id).bind Resource.handle ∧
      Cloud.SameAt h.arn x.after.cloud y.after.cloud
  current : ∀ h h', (x.after.entry id).bind Resource.handle = some h →
    (y.after.entry id).bind Resource.handle = some h' →
    x.after.cloud.Matches h.arn h'.arn y.after.cloud

/-- A cycle that commits has planned for an identity what its entry and its first ingress tell. -/
theorem Commits.exists_find? (hx : x.Commits) (id : Identity) :
    ∃ planned instances, x.Plans planned ∧ Node.listInstances x.sources.nodes = .ok instances ∧
      planned.find? (.ingress id) =
        Engine.plannedFor x.sources.services instances id (x.site.entry id) (x.first id) := by
  rcases Engine.sync_cases x.site.engine x.sources x.now (x.site.cloud.withOutages x.outages) with
    ⟨hfailed, -⟩ | ⟨planned, hplan, -⟩
  · exact absurd hx.outcome hfailed
  · obtain ⟨ingresses, instances, hl, hn, -⟩ := Engine.plan_cases hplan
    refine ⟨planned, instances, hplan, hn, ?_⟩
    rw [Engine.find?_plan hx.regular.distinct hplan hl hn, first, hl]
    rfl

/-- Two cycles that plan nothing for an ingress come to the same for it: to nothing. -/
theorem concordant_of_none {planned' : ResourceSet} (hx : x.Commits) (hy : y.Commits)
    (hc : Comparable id x y) (hp : x.Plans planned) (hp' : y.Plans planned')
    (hf : planned.find? (.ingress id) = none) (hf' : planned'.find? (.ingress id) = none) :
    Concordant id x y := by
  obtain ⟨hrequests, hentry, hsame⟩ := spares_of_find?_eq_none hx.regular hp hf
  obtain ⟨hrequests', hentry', hsame'⟩ := spares_of_find?_eq_none hy.regular hp' hf'
  refine ⟨⟨x.logged, y.logged⟩, by rw [hentry, hentry'], by rw [hrequests, hrequests'],
    fun h hh => ?_, ?_⟩
  · -- the former load balancer, if there is one, is nobody's in either plan
    have hbefore := hc.balancer h hh
    have hh' : (y.site.entry id).bind Resource.handle = some h := by rw [hc.entry, hh]
    exact ⟨by rw [hentry, hentry'], (hsame h hh).symm.trans (hbefore.trans (hsame' h hh'))⟩
  · rw [hentry]
    exact nofun

/-- Two cycles that reconcile the same resource for an ingress come to the same for it. -/
theorem concordant_of_reconciles {c' : Cloud} (hx : x.Commits) (hc : Comparable id x y)
    (hdone : x.Reconciles id r c) (hdone' : y.Reconciles id r c')
    (hhandle : r.handle = (x.site.entry id).bind Resource.handle) : Concordant id x y := by
  have hregion : c'.region = c.region := by rw [hdone'.region, hc.region, hdone.region]
  have hlimit : c'.limit = c.limit := by rw [hdone'.limit, hc.limit, hdone.limit]
  have hentry' := hdone'.entry
  have hsince' := hdone'.since
  have hsettings' := hdone'.settings
  rw [hc.context] at hentry' hsince' hsettings'
  have hmatches : ∀ h, r.handle = some h → c.Matches h.arn h.arn c' := by
    intro h hh
    have hsame := hc.balancer h (hhandle.symm.trans hh)
    have hfirst := hsame.matches hx.regular.separate.filed hc.limit
    exact hfirst.frame (hdone.before h hh) (hdone'.before h hh) hdone.limit hdone'.limit
  obtain ⟨refusal, hrefused, hrefused'⟩ := hc.refused
  rw [hdone.requests] at hrefused
  rw [hdone'.requests, hc.context] at hrefused'
  obtain ⟨hrequests, hsame⟩ := Engine.concordant_reconcile x.now y.now hregion hlimit hmatches
    hrefused hrefused'
  refine ⟨⟨x.logged, y.logged⟩, ?_, ?_, fun h hh => ?_, fun h h' hh hh' => ?_⟩
  · rw [hdone.entry, hentry', Engine.outline_kept hsame.resource]
  · rw [hdone.requests, hdone'.requests, hc.context, hrequests]
  · have hh := hhandle.trans hh
    obtain ⟨hkept, hcloud⟩ := hsame.kept h hh
    rw [hdone.entry, hentry', Engine.handle_kept, Engine.handle_kept]
    have hlast := hcloud.frame (hdone.since h (Or.inl hh)) (hsince' h (Or.inl hh)) hdone.settings
      hsettings'
    exact ⟨hkept, hlast.sameAt⟩
  · rw [hdone.entry, Engine.handle_kept] at hh
    rw [hentry', Engine.handle_kept] at hh'
    exact (hsame.current h h' hh hh').frame (hdone.since h (Or.inr hh))
      (hsince' h' (Or.inr hh')) hdone.settings hsettings'

/-- Two cycles refuse the same calls for an ingress if the outages that are set for it are the
same. -/
theorem exists_refusedAs {name : Document}
    (hx : SetFor name id (x.step.requests x.site) x.outages)
    (hy : SetFor name id (y.step.requests y.site) y.outages)
    (hs : y.outages.filter (Outage.isOf name) = x.outages.filter (Outage.isOf name)) :
    ∃ refusal, RefusedAs refusal [] (x.requestsFor id) ∧
      RefusedAs refusal [] (y.requestsFor id) := by
  exact ⟨_, refusedAs_of_setFor x.logged.inTurn hx rfl, refusedAs_of_setFor y.logged.inTurn hy hs⟩

end Round

namespace Shop

def web : Identity := ⟨"default", "web"⟩

def webName : Document := .string (loadBalancerName "shop" web)

def blog : Document :=
  .object [("metadata", .object [("name", .string "blog")]),
    ("spec", .object [("backend",
      .object [("serviceName", .string "web"), ("servicePort", .int 80)])])]

def fails (operation : Operation) (name : String) : Outage :=
  ⟨operation, some (.string (loadBalancerName "shop" ⟨"default", name⟩)), "down", 0, 1⟩

/-- The ingress alone: its targets are registered again, in vain. -/
def alone : Round where
  site := start.run [sync [fails .register "web"] [ingress] [service]]
  outages := [fails .register "web"]
  sources := sources [ingress] [service]
  now := default

/-- The ingress among others: one that is malformed, one without a backend, one listed twice, and
one that is gone but cannot be deleted. -/
def crowded : Round where
  site := start.run [sync [fails .register "web"] [ingress, blog] [service]]
  outages := [fails .delete "blog", fails .register "web"]
  sources := sources [.null, .object [("metadata", .object [("name", .string "docs")])], ingress,
    ingress] [service]
  now := default

/-- Both cycles commit, and find the same for the ingress, with the same outages set for it. -/
theorem facts_crowded :
    ((alone.step.cycle alone.site).outcome = .ok () ∧
        (crowded.step.cycle crowded.site).outcome = .ok ()) ∧
      (crowded.site.engine.context = alone.site.engine.context ∧
        crowded.site.cloud.region = alone.site.cloud.region ∧
        crowded.site.cloud.limit = alone.site.cloud.limit) ∧
      (crowded.first web = alone.first web ∧ crowded.site.entry web = alone.site.entry web ∧
        ∀ h ∈ (alone.site.entry web).bind Resource.handle,
          Cloud.SameAt h.arn alone.site.cloud crowded.site.cloud) ∧
      (SetFor webName web (alone.step.requests alone.site) alone.outages ∧
        SetFor webName web (crowded.step.requests crowded.site) crowded.outages ∧
        crowded.outages.filter (Outage.isOf webName) =
          alone.outages.filter (Outage.isOf webName)) ∧
      (crowded.requestsFor web).map (fun x => x.2.call.operation) = [.register] := by
  decide +kernel

end Shop

end IngressControl
