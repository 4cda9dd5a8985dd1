import IngressControl.Proofs.Resting
import IngressControl.Proofs.Routes

/-! A second cycle that sees the same things in another order. Behind a cycle in which nothing
failed, it finds every load balancer as it is wanted: it makes no call, and leaves the same
identities tainted and with the same handles. -/

namespace IngressControl
open scoped List
open Document (Texts)

/-- Sources that differ only in the order of their ingresses and nodes, and in that of the parts of
the ingresses. -/
structure Sources.Rearranged (sources sources' : Sources) : Prop where
  ingresses : ∃ is is', sources.ingresses.list = .ok is ∧ sources'.ingresses.list = .ok is' ∧
    Reordering Ingress.Reordered is is'
  services : sources'.services = sources.services
  nodes : ∃ ns ns', sources.nodes.list = .ok ns ∧ sources'.nodes.list = .ok ns' ∧ ns ~ ns'

theorem Node.listInstances_of_perm {nodes nodes' : Source} {ns ns' found : List Document}
    (hl : nodes.list = .ok ns) (hl' : nodes'.list = .ok ns') (hp : ns ~ ns')
    (h : listInstances nodes = .ok found) (ht : Texts found) :
    listInstances nodes' = .ok found := by
  obtain ⟨ns, hns, h⟩ := bind_eq_ok h
  obtain rfl := Except.ok.inj (hl.symm.trans hns)
  obtain ⟨parts, hparts, hsort⟩ := bind_eq_ok h
  -- the instances of the nodes come in another order, and sorting them forgets it
  have hmapM := Agree.mapM (.of_perm hp) fun n n' (hn : n = n') =>
    (hn ▸ .refl (fun _ => rfl) _ : Agree (· = ·) (instances n) (instances n'))
  obtain ⟨parts', hparts', hr⟩ := hmapM.left hparts
  have hp : found ~ parts.flatten := Document.sort_perm hsort
  have hflat : Texts parts.flatten := ht.mono fun d hd => hp.mem_iff.mpr hd
  simp only [listInstances, hl', hparts', Bind.bind, Except.bind]
  rw [← hflat.sort_eq_of_perm hr.perm.flatten, hsort]

theorem find?_of_nodup {α β : Type} [DecidableEq β] {f : α → Option β} {xs : List α} {x : α} {y : β}
    (hn : (xs.filterMap f).Nodup) (hx : x ∈ xs) (hf : f x = some y) :
    xs.find? (fun z => f z == some y) = some x := by
  induction xs with
  | nil => cases hx
  | cons first rest ih =>
    rcases List.mem_cons.mp hx with rfl | hx
    · simp [hf]
    · cases hfirst : f first with
      | none =>
        rw [List.filterMap_cons_none hfirst] at hn
        simpa [hfirst] using ih hn hx
      | some z =>
        rw [List.filterMap_cons_some hfirst, List.nodup_cons] at hn
        have hne : z ≠ y := fun h => hn.1 (h ▸ List.mem_filterMap.mpr ⟨x, hx, hf⟩)
        simpa [hfirst, hne] using ih hn.2 hx

namespace Engine

section Committed

variable {context : Context} {sources : Sources} {now : Moment} {cloud : Cloud}
  {previous planned : ResourceSet}

theorem exists_reconciled (context : Context) (now : Moment) (cloud : Cloud) {r : Resource}
    (hr : r ∈ planned) : ∃ cloud',
    (reconcile context now cloud' r).resource ∈ resourcesAfter context now cloud planned := by
  induction planned generalizing cloud with
  | nil => cases hr
  | cons first rest ih =>
    rw [resourcesAfter_cons]
    rcases List.mem_cons.mp hr with rfl | hr
    · exact ⟨cloud, List.mem_cons_self⟩
    · obtain ⟨cloud', hmem⟩ := ih _ hr
      exact ⟨cloud', List.mem_cons_of_mem _ hmem⟩

/-- What a commit keeps is declared, unless it failed. -/
theorem declared_of_mem_commit (hplan : plan context sources previous = .ok planned)
    {r : Resource} (hr : r ∈ (resourcesAfter context now cloud planned).filter isKept)
    (hf : r.status ≠ .failed) : Declared context sources r.owner := by
  obtain ⟨hmem, hkept⟩ := List.mem_filter.mp hr
  obtain ⟨p, hp, cloud', rfl⟩ := mem_resourcesAfter hmem
  rw [reconcile_owner]
  refine (declared_or_left_over hplan hp).resolve_right fun ⟨hd, ht⟩ => hf ?_
  have hdeletion := (shape_of_mem_commit hplan hr).2 (reconcile_cases context now cloud' ht).1
    ((reconcile_cases context now cloud' ht).2.1.trans hd)
  exact hdeletion.1

variable {ingresses instances : List Document} {id : Identity} {ingress : Document}

/-- If nothing failed, an ingress whose spec can be built has a load balancer that is as wanted. -/
theorem satisfies_of_commit (hplan : plan context sources previous = .ok planned)
    (hl : sources.ingresses.list = .ok ingresses)
    (hn : Node.listInstances sources.nodes = .ok instances)
    (hfirst : ingresses.find? (fun i => owner? context i == some id) = some ingress)
    {spec : DesiredSpec}
    (hs : Ingress.desiredSpec ingress (Service.nodePort sources.services) instances = .ok spec)
    (hf : ∀ r ∈ (resourcesAfter context now cloud planned).filter isKept, r.status ≠ .failed) :
    ∃ r ∈ (resourcesAfter context now cloud planned).filter isKept, r.owner = .ingress id ∧
      r.tainted = false ∧ ∃ h, r.handle = some h ∧ h.Satisfies spec := by
  obtain ⟨p, hp, howner, htaint, hdesired⟩ := exists_planned hplan hl hn hfirst hs
  obtain ⟨cloud', hmem⟩ := exists_reconciled context now cloud hp
  obtain ⟨ht', hd', -⟩ := reconcile_cases context now cloud' htaint
  have hkept : isKept (reconcile context now cloud' p).resource = true := by
    simp [isKept, hd', hdesired]
  have hafter := List.mem_filter.mpr ⟨hmem, hkept⟩
  refine ⟨_, hafter, (reconcile_owner _ _ _ _).trans howner, ht', ?_⟩
  rcases fits_of_wanted context sources now cloud' htaint hdesired with hsettled | hfailed
  · obtain ⟨-, -, -, spec', h, hspec, hh, hsat⟩ := hsettled
    obtain rfl := Option.some.inj (hspec.symm.trans (hd'.trans hdesired))
    exact ⟨h, hh, hsat⟩
  · exact absurd hfailed.2.1 (hf _ hafter)

theorem tainted_of_commit (hplan : plan context sources previous = .ok planned)
    (hl : sources.ingresses.list = .ok ingresses)
    (hn : Node.listInstances sources.nodes = .ok instances)
    (hfirst : ingresses.find? (fun i => owner? context i == some id) = some ingress) {fault : Fault}
    (hs : Ingress.desiredSpec ingress (Service.nodePort sources.services) instances =
      .error fault) :
    ∃ r ∈ (resourcesAfter context now cloud planned).filter isKept, r.owner = .ingress id ∧
      r.tainted = true := by
  obtain ⟨ingresses', instances', hl', hn', rfl⟩ := plan_cases hplan
  obtain rfl := Except.ok.inj (hl.symm.trans hl')
  obtain rfl := Except.ok.inj (hn.symm.trans hn')
  have htainted : resourceOf sources.services instances previous id ingress =
      taintedResource id (previous.find? (.ingress id)) fault := by
    rw [resourceOf, hs]
  have hp : taintedResource id (previous.find? (.ingress id)) fault ∈
      declaredBy context sources.services previous ingresses instances := by
    rw [← htainted]
    exact List.mem_map_of_mem (f := fun entry : Identity × Document =>
      resourceOf sources.services instances previous entry.1 entry.2) (mem_owned.mpr hfirst)
  obtain ⟨cloud', hmem⟩ := exists_reconciled context now cloud (List.mem_append_left _ hp)
  rw [reconcile_of_tainted rfl] at hmem
  exact ⟨_, List.mem_filter.mpr ⟨hmem, rfl⟩, rfl, rfl⟩

end Committed

/-- The ingresses that are addressed to an engine have different identities. -/
def DistinctIdentities (context : Context) (sources : Sources) : Prop :=
  ∀ ingresses, sources.ingresses.list = .ok ingresses →
    (ingresses.filterMap (owner? context)).Nodup

/-- What is committed for some ingresses by a cycle in which nothing failed. -/
structure Reached (context : Context) (services : Source) (is instances : List Document)
    (after : ResourceSet) : Prop where
  distinct : after.Distinct
  declared : ∀ r ∈ after, ∃ id ∈ (owned context is).map Prod.fst, r.owner = .ingress id
  satisfied : ∀ id i spec, is.find? (fun i => owner? context i == some id) = some i →
    Ingress.desiredSpec i (Service.nodePort services) instances = .ok spec →
    ∃ r ∈ after, r.owner = .ingress id ∧ r.tainted = false ∧
      ∃ h, r.handle = some h ∧ h.Satisfies spec
  tainted : ∀ id i fault, is.find? (fun i => owner? context i == some id) = some i →
    Ingress.desiredSpec i (Service.nodePort services) instances = .error fault →
    ∃ r ∈ after, r.owner = .ingress id ∧ r.tainted = true

theorem reached_of_commit {context : Context} {sources : Sources} {now : Moment} {cloud : Cloud}
    {previous planned : ResourceSet} {is instances : List Document} (hd : previous.Distinct)
    (hplan : plan context sources previous = .ok planned) (hl : sources.ingresses.list = .ok is)
    (hn : Node.listInstances sources.nodes = .ok instances)
    (hf : ∀ r ∈ (resourcesAfter context now cloud planned).filter isKept, r.status ≠ .failed) :
    Reached context sources.services is instances
      ((resourcesAfter context now cloud planned).filter isKept) where
  distinct := distinct_resourcesAfter (distinct_plan hd hplan) context now cloud
  declared r hr := (declared_iff_of_list hl).mp (declared_of_mem_commit hplan hr (hf r hr))
  satisfied _ _ _ hfirst hs := satisfies_of_commit hplan hl hn hfirst hs hf
  tainted _ _ _ hfirst hs := tainted_of_commit hplan hl hn hfirst hs

section Again

variable {context : Context} {services : Source} {is is' instances : List Document}
  {after : ResourceSet}

theorem perm_identities (hre : Reordering Ingress.Reordered is is') :
    (owned context is').map Prod.fst ~ (owned context is).map Prod.fst := by
  rw [List.perm_ext_iff_of_nodup nodup_owned nodup_owned]
  intro id
  rw [mem_owned_identities, mem_owned_identities]
  constructor
  · rintro ⟨i', hi', ho⟩
    obtain ⟨i, hi, hr⟩ := hre.exists_left hi'
    exact ⟨i, hi, (hr.owner? context).trans ho⟩
  · rintro ⟨i, hi, ho⟩
    obtain ⟨i', hi', hr⟩ := hre.exists_right hi
    exact ⟨i', hi', (hr.owner? context).symm.trans ho⟩

/-- What is planned next for an ingress is at rest, and bears what is there already. -/
theorem Reached.atRest (h : Reached context services is instances after) (ht : Texts instances)
    (hids : (is.filterMap (owner? context)).Nodup) (hre : Reordering Ingress.Reordered is is')
    {id : Identity} {i' : Document} (hi' : (id, i') ∈ owned context is') :
    AtRest (resourceOf services instances after id i') ∧
      ∃ r, after.find? (.ingress id) = some r ∧
        (resourceOf services instances after id i').bearing = r.bearing := by
  have hfirst := mem_owned.mp hi'
  have howner' : owner? context i' = some id := by simpa using List.find?_some hfirst
  -- the ingress that it was before is the first of its identity, since it is the only one
  obtain ⟨i, hi, hr⟩ := hre.exists_left (List.mem_of_find?_eq_some hfirst)
  have hfirst := find?_of_nodup hids hi ((hr.owner? context).trans howner')
  have hagree := hr.desiredSpec (Service.respects_nodePort services) instances
  cases hs : Ingress.desiredSpec i (Service.nodePort services) instances with
  | ok spec =>
    obtain ⟨spec', hs', halike⟩ := hagree.left hs
    obtain ⟨r, hmem, howner, htaint, handle, hh, hsat⟩ := h.satisfied id i spec hfirst hs
    have hfind := find?_of_mem h.distinct hmem howner
    have hsat' : handle.Satisfies spec' :=
      ⟨halike.needsUpdate handle ▸ hsat.attributes, halike.instances ▸ hsat.instances⟩
    have htexts : Texts spec'.instances := instances_of_desiredSpec hs' ▸ ht
    rw [resourceOf_of_ok hs', hfind]
    refine ⟨Or.inr ⟨spec', handle, rfl, hh, hsat', htexts⟩, r, rfl, ?_⟩
    rw [Resource.bearing, Resource.bearing, howner, htaint]
    rfl
  | error fault =>
    obtain ⟨r, hmem, howner, htaint⟩ := h.tainted id i fault hfirst hs
    have hfind := find?_of_mem h.distinct hmem howner
    have hresource : ∃ fault', resourceOf services instances after id i' =
        taintedResource id (some r) fault' := by
      rw [resourceOf, hfind]
      cases hs' : Ingress.desiredSpec i' (Service.nodePort services) instances with
      | ok spec' =>
        obtain ⟨spec, hspec, -⟩ := hagree.right hs'
        cases hs.symm.trans hspec
      | error fault' => exact ⟨fault', rfl⟩
    obtain ⟨fault', hresource⟩ := hresource
    rw [hresource]
    refine ⟨Or.inl rfl, r, hfind, ?_⟩
    rw [Resource.bearing, Resource.bearing, howner, htaint]
    rfl

theorem Reached.exists_owner (h : Reached context services is instances after) {id : Identity}
    (hid : id ∈ (owned context is).map Prod.fst) : ∃ r ∈ after, r.owner = .ingress id := by
  obtain ⟨entry, he, rfl⟩ := List.mem_map.mp hid
  have hfirst := mem_owned.mp he
  cases hs : Ingress.desiredSpec entry.2 (Service.nodePort services) instances with
  | ok spec =>
    obtain ⟨r, hr, ho, -⟩ := h.satisfied _ _ _ hfirst hs
    exact ⟨r, hr, ho⟩
  | error fault =>
    obtain ⟨r, hr, ho, -⟩ := h.tainted _ _ _ hfirst hs
    exact ⟨r, hr, ho⟩

/-- There is one resource for each identity. -/
theorem Reached.perm_owners (h : Reached context services is instances after) :
    after.map Resource.owner ~ ((owned context is).map Prod.fst).map Owner.ingress := by
  have hinj : Function.Injective Owner.ingress := fun _ _ h => Owner.ingress.inj h
  have hnodup : (after.map Resource.owner).Nodup := by
    refine List.pairwise_map.mpr (h.distinct.imp_of_mem fun {a b} ha _ hab he => ?_)
    obtain ⟨id, -, ho⟩ := h.declared a ha
    rw [← he, ho, Owner.same] at hab
    simp at hab
  rw [List.perm_ext_iff_of_nodup hnodup (nodup_owned.map hinj)]
  intro owner
  constructor
  · intro hm
    obtain ⟨r, hr, rfl⟩ := List.mem_map.mp hm
    obtain ⟨id, hid, ho⟩ := h.declared r hr
    exact ho ▸ List.mem_map_of_mem hid
  · intro hm
    obtain ⟨id, hid, rfl⟩ := List.mem_map.mp hm
    obtain ⟨r, hr, ho⟩ := h.exists_owner hid
    exact ho ▸ List.mem_map_of_mem hr

/-- What is planned next bears what is there already, in another order. -/
theorem Reached.perm_bearing (h : Reached context services is instances after)
    (ht : Texts instances) (hids : (is.filterMap (owner? context)).Nodup)
    (hre : Reordering Ingress.Reordered is is') :
    (declaredBy context services after is' instances).map Resource.bearing ~
      after.map Resource.bearing := by
  -- on either side the bearings are those that are found for the identities
  let found (id : Identity) : Option (Owner × Bool × Option Handle) :=
    (after.find? (.ingress id)).map Resource.bearing
  have hplanned :
      ((declaredBy context services after is' instances).map Resource.bearing).map some =
        ((owned context is').map Prod.fst).map found := by
    rw [declaredBy, List.map_map, List.map_map, List.map_map]
    refine List.map_congr_left fun entry he => ?_
    obtain ⟨-, r, hfind, hbearing⟩ := h.atRest ht hids hre he
    simp only [Function.comp_apply, found, hfind, hbearing, Option.map_some]
  have hafter : (after.map Resource.bearing).map some ~
      ((owned context is).map Prod.fst).map found := by
    have hbearing : (after.map Resource.bearing).map some = (after.map Resource.owner).map
        fun owner => (after.find? owner).map Resource.bearing := by
      rw [List.map_map, List.map_map]
      refine List.map_congr_left fun r hr => ?_
      obtain ⟨id, -, ho⟩ := h.declared r hr
      simp only [Function.comp_apply, ho, find?_of_mem h.distinct hr ho, Option.map_some]
    rw [hbearing]
    refine (h.perm_owners.map _).trans ?_
    rw [List.map_map]
    exact .refl _
  have hsome := hplanned ▸ ((perm_identities hre).map found).trans hafter.symm
  exact (List.map_perm_map_iff (Option.some_injective _)).mp hsome

/-- From what a cycle has reached, a rearranged cycle plans the declared entries only. -/
theorem Reached.plan (h : Reached context services is instances after)
    (hre : Reordering Ingress.Reordered is is') {sources' : Sources}
    (hl : sources'.ingresses.list = .ok is') (hservices : sources'.services = services)
    (hn : Node.listInstances sources'.nodes = .ok instances) :
    plan context sources' after = .ok (declaredBy context services after is' instances) := by
  have horphans : orphans after (declaredBy context services after is' instances) = [] := by
    rw [orphans, List.map_eq_nil_iff, List.filter_eq_nil_iff]
    intro r hr horphan
    obtain ⟨id, hid, ho⟩ := h.declared r hr
    refine (isOrphan_iff.mp horphan).2.1 (isSome_find?_declaredBy.mpr ⟨id, ?_, ho⟩)
    exact (perm_identities hre).mem_iff.mpr hid
  have hdeclared : Engine.declared context sources' after =
      .ok (declaredBy context services after is' instances) := by
    simp only [Engine.declared, hl, hn, hservices]
    rfl
  rw [Engine.plan, hdeclared, Except.map, horphans, List.append_nil]

end Again

/-- What a cycle leaves behind that finds everything as it is wanted: it succeeds, it makes no call,
and it commits the same owners with the same taints and handles, in some order. -/
structure Idle (before : Site) (outages : List Outage) (cycle : Cycle) : Prop where
  outcome : cycle.outcome = .ok ()
  cloud : cycle.cloud = before.cloud.withOutages outages
  ready : ∀ r ∈ cycle.engine.resources, r.tainted = false → r.status = .ready
  same : cycle.engine.resources.map Resource.bearing ~ before.engine.resources.map Resource.bearing

/-- The cycle after one in which nothing failed is idle. -/
theorem Reached.idle {site : Site} {services : Source} {is is' instances : List Document}
    (h : Reached site.engine.context services is instances site.engine.resources)
    (ht : Texts instances) (hids : (is.filterMap (owner? site.engine.context)).Nodup)
    (hre : Reordering Ingress.Reordered is is') {sources' : Sources}
    (hl : sources'.ingresses.list = .ok is') (hservices : sources'.services = services)
    (hn : Node.listInstances sources'.nodes = .ok instances) (outages : List Outage)
    (now : Moment) : Idle site outages ((Step.sync outages sources' now).cycle site) := by
  have hcycle : (Step.sync outages sources' now).cycle site = site.engine.commit now
      (site.cloud.withOutages outages)
      (declaredBy site.engine.context services site.engine.resources is' instances) :=
    sync_of_plan (h.plan hre hl hservices hn)
  have hrest : ∀ r ∈ declaredBy site.engine.context services site.engine.resources is' instances,
      AtRest r := by
    intro r hr
    obtain ⟨entry, he, rfl⟩ := List.mem_map.mp hr
    exact (h.atRest ht hids hre he).1
  obtain ⟨hcloud, hbearing, hready⟩ := resourcesAfter_of_atRest hrest now
  rw [hcycle]
  refine ⟨rfl, hcloud, hready, ?_⟩
  simpa [hbearing] using h.perm_bearing ht hids hre

end Engine

namespace Site

end Site

namespace Shop

def placed (subnets : String) : Document :=
  .object [("metadata", .object [("name", .string "web"),
      ("annotations", .object [(Ingress.subnetsAnnotation, .string subnets)])]),
    ("spec", .object [("backend",
      .object [("serviceName", .string "web"), ("servicePort", .int 80)])])]

def stray : Document :=
  .object [("metadata", .object [("name", .string "stray")]),
    ("spec", .object [("backend",
      .object [("serviceName", .string "stray"), ("servicePort", .int 80)])])]

theorem reordered_placed : Ingress.Reordered (placed "a,b") (placed "b,a") := by
  have hentries : Ingress.AnnotationReordered Ingress.subnetsAnnotation (.string "a,b")
      (.string "b,a") := .entries (by decide)
  refine .fields (.cons ⟨rfl, ?_⟩ (.cons ⟨rfl, .same _⟩ .nil))
  refine .fields (.cons ⟨rfl, rfl⟩ (.cons ⟨rfl, ?_⟩ .nil))
  exact .fields (.cons ⟨rfl, hentries⟩ .nil)

theorem rearranged_swap : (sources [placed "a,b", stray] [service]).Rearranged
    (sources [stray, placed "b,a"] [service]) where
  ingresses := ⟨_, _, rfl, rfl, [placed "b,a", stray],
    .cons reordered_placed (.cons (.same _) .nil), .swap _ _ _⟩
  services := rfl
  nodes := ⟨_, _, rfl, rfl, .refl _⟩

end Shop

end IngressControl
