import IngressControl.Engine.Cycle
import IngressControl.Proofs.Batches
import IngressControl.Proofs.Keys
import IngressControl.Proofs.Sorting
import IngressControl.Proofs.Store
import Mathlib.Logic.Relation

/-! What the engine can do to a load balancer, one call at a time. Reconciling a resource is a run
of such moves, so what every move preserves holds after every cycle, wherever the calls of the cycle
fail. -/

namespace IngressControl
open scoped List

structure Holding where
  owner : Owner
  handle : Handle

/-- What a handle is to its owner, if there is one. -/
def held (owner : Owner) (handle : Option Handle) : List Holding :=
  (handle.map (Holding.mk owner)).toList

def holdings (set : ResourceSet) : List Holding := set.flatMap fun r => held r.owner r.handle

/-- A set holds the load balancers of its entries. -/
theorem mem_holdings {set : ResourceSet} {x : Holding} :
    x ∈ holdings set ↔ ∃ r ∈ set, r.owner = x.owner ∧ r.handle = some x.handle := by
  obtain ⟨owner, handle⟩ := x
  simp only [holdings, held, List.mem_flatMap, Option.mem_toList,
    Option.map_eq_some_iff, Holding.mk.injEq]
  constructor
  · rintro ⟨r, hr, h, hh, rfl, rfl⟩
    exact ⟨r, hr, rfl, hh⟩
  · rintro ⟨r, hr, rfl, hh⟩
    exact ⟨r, hr, handle, hh, rfl, rfl⟩

@[simp] theorem holdings_append (set set' : ResourceSet) :
    holdings (set ++ set') = holdings set ++ holdings set' := List.flatMap_append

namespace Engine

structure Stage where
  cloud : Cloud
  handle : Option Handle

/-- A handle that takes over the instances in order; it stays as it is if they have no order. -/
def follow (h : Handle) (instances : List Document) : Handle :=
  match sortedSet instances with
  | .ok sorted => { h with instances := sorted }
  | .error _ => h

@[simp] theorem follow_bare (h : Handle) (instances : List Document) :
    (follow h instances).bare = h.bare := by
  unfold follow
  split <;> rfl

@[simp] theorem follow_arn (h : Handle) (instances : List Document) :
    (follow h instances).arn = h.arn :=
  Handle.arn_of_bare (follow_bare h instances)

@[simp] theorem follow_tags (h : Handle) (instances : List Document) :
    (follow h instances).tags = h.tags :=
  Handle.tags_of_bare (follow_bare h instances)

/-- One call for a resource, by what it makes of the cloud and of the handle. None brings outages
about. -/
inductive Move (context : Context) (r : Resource) : Stage → Stage → Prop
  | refused {cloud cloud' : Cloud} {handle : Option Handle} (hs : cloud'.store = cloud.store)
      (hc : cloud.Calm → cloud'.Calm) : Move context r ⟨cloud, handle⟩ ⟨cloud', handle⟩
  | create {cloud cloud' : Cloud} (spec : DesiredSpec) (hd : r.desired = some spec)
      (hs : cloud'.store = cloud.store.withMade (nameOfKey context.clusterName r.owner.key)
        (attributes spec) (tags context r.owner)) (hc : cloud.Calm → cloud'.Calm) :
      Move context r ⟨cloud, none⟩ ⟨cloud', some (cloud.made
        (nameOfKey context.clusterName r.owner.key) (attributes spec) (tags context r.owner))⟩
  | update {cloud cloud' : Cloud} {h balancer : Handle} (spec : DesiredSpec)
      (hd : r.desired = some spec) (hb : Ledger.get? h.arn cloud.balancers = some balancer)
      (hs : cloud'.store = cloud.store.withBalancer h.arn ((attributes spec).change balancer))
      (hc : cloud.Calm → cloud'.Calm) :
      Move context r ⟨cloud, some h⟩
        ⟨cloud', some { (attributes spec).change balancer with instances := h.instances }⟩
  | delete {cloud cloud' : Cloud} {h : Handle} (hd : r.desired = none)
      (hs : cloud'.store = cloud.store.withoutBalancer h.arn) (hc : cloud.Calm → cloud'.Calm) :
      Move context r ⟨cloud, some h⟩ ⟨cloud', none⟩
  | register {cloud cloud' : Cloud} {h : Handle} (spec : DesiredSpec) (batch : List Document)
      (hd : r.desired = some spec) (hb : ∀ d ∈ batch, d ∈ spec.instances)
      (hs : cloud'.store = cloud.store.withTargets h.arn (fun ts => Cloud.join ts batch))
      (hc : cloud.Calm → cloud'.Calm) :
      Move context r ⟨cloud, some h⟩ ⟨cloud', some (follow h (h.instances ++ batch))⟩
  | deregister {cloud cloud' : Cloud} {h : Handle} (batch : List Document)
      (hs : cloud'.store = cloud.store.withTargets h.arn (fun ts => Cloud.leave ts batch))
      (hc : cloud.Calm → cloud'.Calm) :
      Move context r ⟨cloud, some h⟩ ⟨cloud', some (follow h (without h.instances batch))⟩

abbrev Moves (context : Context) (r : Resource) : Stage → Stage → Prop :=
  Relation.ReflTransGen (Move context r)

variable {context : Context} {r : Resource} {now : Moment}

theorem Move.calm {a b : Stage} (hm : Move context r a b) (hc : a.cloud.Calm) : b.cloud.Calm := by
  cases hm with
  | refused _ hcalm => exact hcalm hc
  | create _ _ _ hcalm => exact hcalm hc
  | update _ _ _ _ hcalm => exact hcalm hc
  | delete _ _ hcalm => exact hcalm hc
  | register _ _ _ _ _ hcalm => exact hcalm hc
  | deregister _ _ hcalm => exact hcalm hc

/-- Moves bring no outage. -/
theorem Moves.calm {a b : Stage} (hm : Moves context r a b) (hc : a.cloud.Calm) : b.cloud.Calm := by
  induction hm with
  | refl => exact hc
  | tail _ hmove ih => exact hmove.calm ih

/-- Calls for batches are moves if each call that succeeds is one. -/
theorem callBatches_moves {call : Cloud → Handle → List Document → Reply Unit}
    {change change' : List Document → List Document → List Document}
    (hcall : Cloud.ChangesTargets call change') {batches : List (List Document)}
    (hmove : ∀ batch ∈ batches, ∀ {cloud cloud' : Cloud} {h : Handle},
      cloud'.store = cloud.store.withTargets h.arn (fun ts => change' ts batch) →
      (cloud.Calm → cloud'.Calm) →
      Move context r ⟨cloud, some h⟩ ⟨cloud', some (follow h (change h.instances batch))⟩)
    (cloud : Cloud) (h : Handle) :
    Moves context r ⟨cloud, some h⟩ ⟨(callBatches call change cloud h batches).cloud,
      some (callBatches call change cloud h batches).handle⟩ := by
  induction batches generalizing cloud h with
  | nil => exact .refl
  | cons batch rest ih =>
    simp only [callBatches]
    cases hc : call cloud h batch with
    | mk outcome cloud' =>
      rcases hcall.cases hc with ⟨-, ⟨fault, rfl⟩, hs, hcalm⟩ | ⟨rfl, hs, hcalm⟩
      · exact .single (.refused hs hcalm)
      · have hfirst := hmove batch List.mem_cons_self hs hcalm
        -- the handle follows only if its instances can be sorted; if not, the calls end here
        simp only [follow] at hfirst
        cases hset : sortedSet (change h.instances batch) with
        | error fault =>
          rw [hset] at hfirst
          exact .single hfirst
        | ok instances =>
          rw [hset] at hfirst
          exact .head hfirst (ih (fun b hb => hmove b (List.mem_cons_of_mem batch hb)) cloud' _)

/-- Calls in batches are moves if every call with some of the instances is one. -/
theorem callInBatches_moves {call : Cloud → Handle → List Document → Reply Unit}
    {change change' : List Document → List Document → List Document}
    (hcall : Cloud.ChangesTargets call change') {instances : List Document}
    (hmove : ∀ batch, (∀ d ∈ batch, d ∈ instances) → ∀ {cloud cloud' : Cloud} {h : Handle},
      cloud'.store = cloud.store.withTargets h.arn (fun ts => change' ts batch) →
      (cloud.Calm → cloud'.Calm) →
      Move context r ⟨cloud, some h⟩ ⟨cloud', some (follow h (change h.instances batch))⟩)
    (limit : Int) (cloud : Cloud) (h : Handle) :
    Moves context r ⟨cloud, some h⟩ ⟨(callInBatches call change limit cloud h instances).cloud,
      some (callInBatches call change limit cloud h instances).handle⟩ := by
  unfold callInBatches
  split
  · exact .refl
  · rename_i batches hb
    refine callBatches_moves hcall (fun batch hmem => hmove batch fun d hd => ?_) cloud h
    rw [← flatten_groupsForLimit hb]
    exact List.mem_flatten.mpr ⟨batch, hmem, hd⟩

theorem setOf_subset {ds es : List Document} (h : setOf ds = .ok es) : ∀ d ∈ es, d ∈ ds := by
  obtain ⟨keys, hk, rfl⟩ := map_eq_ok h
  obtain ⟨rfl, -⟩ := Document.keys_of_mapM hk
  intro d hd
  rcases Cloud.mem_of_mem_join hd with hd | hd
  · cases hd
  · exact hd

/-- An alignment adds only wanted targets. -/
theorem toAdd_subset {current wanted : List Document} {a : Alignment}
    (h : alignment current wanted = .ok a) : ∀ d ∈ a.toAdd, d ∈ wanted := by
  unfold alignment at h
  obtain ⟨current', -, h⟩ := bind_eq_ok h
  obtain ⟨wanted', hw, h⟩ := bind_eq_ok h
  obtain ⟨toAdd, ha, h⟩ := bind_eq_ok h
  obtain ⟨toRemove, -, h⟩ := bind_eq_ok h
  obtain rfl := Except.ok.inj h
  intro d hd
  have hmem := (Document.sort_perm ha).mem_iff.mp hd
  exact setOf_subset hw d (List.mem_filter.mp hmem).1

/-- The alignment of targets is made of moves toward the desired instances. -/
theorem alignTargets_moves {spec : DesiredSpec} (hd : r.desired = some spec) (limit : Int)
    (cloud : Cloud) (h : Handle) :
    Moves context r ⟨cloud, some h⟩ ⟨(alignTargets limit cloud h spec.instances).cloud,
      some (alignTargets limit cloud h spec.instances).handle⟩ := by
  unfold alignTargets
  split
  · exact .refl
  · rename_i a ha
    split
    · exact .refl
    · have hregister (batch : List Document) (hb : ∀ d ∈ batch, d ∈ a.toAdd) {cloud cloud' : Cloud}
          {h : Handle}
          (hs : cloud'.store = cloud.store.withTargets h.arn (fun ts => Cloud.join ts batch))
          (hc : cloud.Calm → cloud'.Calm) :
          Move context r ⟨cloud, some h⟩ ⟨cloud', some (follow h (h.instances ++ batch))⟩ :=
        .register spec batch hd (fun d hm => toAdd_subset ha d (hb d hm)) hs hc
      have hadd := callInBatches_moves Cloud.register_changesTargets hregister limit cloud h
      cases ho : (callInBatches Cloud.register (fun is batch => is ++ batch) limit cloud h
          a.toAdd).outcome with
      | error fault =>
        simp only [ho]
        exact hadd
      | ok =>
        simp only [ho]
        refine hadd.trans ?_
        exact callInBatches_moves Cloud.deregister_changesTargets
          (fun batch _ _ _ _ hs hc => .deregister batch hs hc) limit _ _

/-- A creation and the registrations after it are moves. -/
theorem applyCreate_moves {spec : DesiredSpec} (hd : r.desired = some spec) (cloud : Cloud) :
    Moves context r ⟨cloud, none⟩ ⟨(applyCreate context cloud r.owner spec).cloud,
      (applyCreate context cloud r.owner spec).handle⟩ := by
  unfold applyCreate
  cases hc : cloud.create (nameOfKey context.clusterName r.owner.key) (attributes spec)
      (tags context r.owner) with
  | mk outcome cloud' =>
    rcases Cloud.create_cases hc with ⟨hn, ⟨fault, rfl⟩, hs⟩ | ⟨rfl, hs, hcalm⟩ <;> simp only [hc]
    · exact .single (.refused hs fun hcalm => absurd hcalm hn)
    · exact .head (.create spec hd hs hcalm) (alignTargets_moves hd _ _ _)

/-- An update is made of moves on its load balancer. -/
theorem applyUpdate_moves {spec : DesiredSpec} (hd : r.desired = some spec) (cloud : Cloud)
    (h : Handle) :
    Moves context r ⟨cloud, some h⟩ ⟨(applyUpdate context cloud h spec).cloud,
      (applyUpdate context cloud h spec).handle⟩ := by
  unfold applyUpdate applyAttributes
  cases spec.needsUpdate h with
  | error fault => exact .refl
  | ok needed =>
    cases needed with
    | false => exact alignTargets_moves hd _ _ _
    | true =>
      cases hc : cloud.update h (attributes spec) with
      | mk outcome cloud' =>
        rcases Cloud.update_cases hc with
          ⟨-, ⟨fault, rfl⟩, hs, hcalm⟩ | ⟨balancer, hb, rfl, hs, hcalm⟩
        · exact .single (.refused hs hcalm)
        · exact .head (.update spec hd hb hs hcalm) (alignTargets_moves hd _ _ _)

/-- A deletion is a move, or none if it fails. -/
theorem applyDelete_moves (hd : r.desired = none) (cloud : Cloud) (h : Handle) :
    Moves context r ⟨cloud, some h⟩
      ⟨(applyDelete cloud h).cloud, (applyDelete cloud h).handle⟩ := by
  unfold applyDelete
  cases hc : cloud.delete h with
  | mk outcome cloud' =>
    rcases Cloud.delete_cases hc with ⟨hn, ⟨fault, rfl⟩, hs⟩ | ⟨rfl, hs, hcalm⟩
    · exact .single (.refused hs fun hcalm => absurd hcalm hn)
    · exact .single (.delete hd hs hcalm)

/-- Whatever an entry needs is done by moves. -/
theorem apply_moves (cloud : Cloud) (r : Resource) :
    Moves context r ⟨cloud, r.handle⟩
      ⟨(apply context cloud r).cloud, (apply context cloud r).handle⟩ := by
  unfold apply
  cases hd : r.desired with
  | none =>
    cases hh : r.handle with
    | none => exact .refl
    | some h => exact applyDelete_moves hd cloud h
  | some spec =>
    cases hh : r.handle with
    | none => exact applyCreate_moves hd cloud
    | some h => exact applyUpdate_moves hd cloud h

@[simp] theorem reconcile_owner (context : Context) (now : Moment) (cloud : Cloud) (r : Resource) :
    (reconcile context now cloud r).resource.owner = r.owner := by
  unfold reconcile
  split
  · rfl
  · dsimp only
    split <;> rfl

/-- A tainted entry is left as it is, and no call is made for it. -/
@[simp] theorem reconcile_of_tainted {cloud : Cloud} {r : Resource} (h : r.tainted = true) :
    reconcile context now cloud r = ⟨r, none, cloud⟩ := by
  rw [reconcile, if_pos h]

/-- What a resource that is not tainted is left with comes from its calls. -/
theorem reconcile_of_untainted (context : Context) (now : Moment) (cloud : Cloud) {r : Resource}
    (h : r.tainted = false) :
    (reconcile context now cloud r).cloud = (apply context cloud r).cloud ∧
      (reconcile context now cloud r).resource.handle = (apply context cloud r).handle := by
  rw [reconcile, if_neg (by simp [h])]
  dsimp only
  split
  · exact ⟨rfl, rfl⟩
  · exact ⟨rfl, rfl⟩

/-- Reconciling a resource is a run of moves; a tainted one stays where it is. -/
theorem reconcile_moves (context : Context) (now : Moment) (cloud : Cloud) (r : Resource) :
    Moves context r ⟨cloud, r.handle⟩ ⟨(reconcile context now cloud r).cloud,
      (reconcile context now cloud r).resource.handle⟩ := by
  cases ht : r.tainted with
  | true =>
    rw [reconcile_of_tainted ht]
  | false =>
    obtain ⟨hcloud, hhandle⟩ := reconcile_of_untainted context now cloud ht
    rw [hcloud, hhandle]
    exact apply_moves cloud r

@[simp] theorem finalCloud_cons (cloud : Cloud) (first : Reconciled) (rest : List Reconciled) :
    finalCloud cloud (first :: rest) = finalCloud first.cloud rest := by
  cases rest with
  | nil => rfl
  | cons second rest => simp [finalCloud, List.getLast?_cons]

def cloudAfter (context : Context) (now : Moment) (cloud : Cloud) (planned : ResourceSet) : Cloud :=
  finalCloud cloud (reconcileAll context now cloud planned)

def resourcesAfter (context : Context) (now : Moment) (cloud : Cloud) (planned : ResourceSet) :
    ResourceSet :=
  (reconcileAll context now cloud planned).map Reconciled.resource

@[simp] theorem cloudAfter_cons (cloud : Cloud) (r : Resource) (rest : ResourceSet) :
    cloudAfter context now cloud (r :: rest) =
      cloudAfter context now (reconcile context now cloud r).cloud rest :=
  finalCloud_cons _ _ _

@[simp] theorem resourcesAfter_cons (cloud : Cloud) (r : Resource) (rest : ResourceSet) :
    resourcesAfter context now cloud (r :: rest) =
      (reconcile context now cloud r).resource ::
        resourcesAfter context now (reconcile context now cloud r).cloud rest := rfl

/-- A commit of a set in two parts commits the first part, then the second. -/
@[simp] theorem cloudAfter_append (cloud : Cloud) (set set' : ResourceSet) :
    cloudAfter context now cloud (set ++ set') =
      cloudAfter context now (cloudAfter context now cloud set) set' := by
  induction set generalizing cloud with
  | nil => rfl
  | cons r rest ih => rw [List.cons_append, cloudAfter_cons, ih, ← cloudAfter_cons]

@[simp] theorem resourcesAfter_append (cloud : Cloud) (set set' : ResourceSet) :
    resourcesAfter context now cloud (set ++ set') =
      resourcesAfter context now cloud set ++
        resourcesAfter context now (cloudAfter context now cloud set) set' := by
  induction set generalizing cloud with
  | nil => rfl
  | cons r rest ih =>
    simp [ih]

/-- Reconciling brings no outages about. -/
theorem calm_cloudAfter {cloud : Cloud} (hc : cloud.Calm) (planned : ResourceSet) :
    (cloudAfter context now cloud planned).Calm := by
  induction planned generalizing cloud with
  | nil => exact hc
  | cons r rest ih =>
    simpa using ih ((reconcile_moves context now cloud r).calm hc)

/-- What holds of a cloud, the resources that are done and those to come, and is kept by
reconciling the next one, holds in the end of all that are done. -/
theorem reconcileAll_induction {P : Cloud → ResourceSet → ResourceSet → Prop}
    (step : ∀ cloud done r rest, P cloud done (r :: rest) →
      P (reconcile context now cloud r).cloud
        (done ++ [(reconcile context now cloud r).resource]) rest)
    {cloud : Cloud} {done planned : ResourceSet} (h : P cloud done planned) :
    P (cloudAfter context now cloud planned)
      (done ++ resourcesAfter context now cloud planned) [] := by
  induction planned generalizing cloud done with
  | nil => simpa [cloudAfter, resourcesAfter, reconcileAll, finalCloud] using h
  | cons r rest ih =>
    have hnext := ih (step cloud done r rest h)
    rwa [List.append_assoc, List.singleton_append, ← cloudAfter_cons,
      ← resourcesAfter_cons] at hnext

/-- What every move for a resource of a plan keeps of the cloud and the load balancers that the
engine has, in whatever order they stand, the whole plan keeps. At each move the other load
balancers are those of other resources. -/
theorem holdings_induction_of_pairwise {S : Owner → Owner → Prop}
    {P : Cloud → List Holding → Prop} {planned : ResourceSet}
    (apart : planned.Pairwise fun a b => S a.owner b.owner)
    (perm : ∀ cloud {hs hs' : List Holding}, hs ~ hs' → P cloud hs → P cloud hs')
    (keeps : ∀ r ∈ planned, r.tainted = false → ∀ {a b : Stage} {others : List Holding},
      (∀ x ∈ others, S x.owner r.owner ∨ S r.owner x.owner) →
      Move context r a b → P a.cloud (held r.owner a.handle ++ others) →
      P b.cloud (held r.owner b.handle ++ others))
    {cloud : Cloud} (h : P cloud (holdings planned)) :
    P (cloudAfter context now cloud planned)
      (holdings (resourcesAfter context now cloud planned)) := by
  have hmoves {r : Resource} (hr : r ∈ planned) (ht : r.tainted = false) {a b : Stage}
      {others : List Holding} (ho : ∀ x ∈ others, S x.owner r.owner ∨ S r.owner x.owner)
      (hm : Moves context r a b) (hP : P a.cloud (held r.owner a.handle ++ others)) :
      P b.cloud (held r.owner b.handle ++ others) := by
    induction hm with
    | refl => exact hP
    | tail _ hmove ih => exact keeps r hr ht ho hmove ih
  -- done and rest together are the plan, with the done ones as they were left
  let Q : Cloud → ResourceSet → ResourceSet → Prop := fun cloud done rest =>
    (∀ r ∈ rest, r ∈ planned) ∧ ((done ++ rest).map Resource.owner).Pairwise S ∧
      P cloud (holdings (done ++ rest))
  have hstep : ∀ cloud done r rest, Q cloud done (r :: rest) →
      Q (reconcile context now cloud r).cloud
        (done ++ [(reconcile context now cloud r).resource]) rest := by
    rintro cloud done r rest ⟨hmem, hapart, hP⟩
    refine ⟨fun r' hr' => hmem r' (List.mem_cons_of_mem _ hr'), ?_, ?_⟩
    · simpa [reconcile_owner] using hapart
    have hfront (r : Resource) : holdings (done ++ r :: rest) ~
        held r.owner r.handle ++ (holdings done ++ holdings rest) := by
      rw [holdings_append, ← List.append_assoc]
      exact List.perm_append_comm_assoc _ _ _ |>.trans (List.append_assoc _ _ _ ▸ .refl _)
    rw [List.append_assoc, List.singleton_append]
    refine perm _ (hfront _).symm ?_
    have hP := perm _ (hfront r) hP
    cases ht : r.tainted with
    | true => simpa [ht]
    | false =>
      rw [reconcile_owner]
      refine hmoves (hmem r List.mem_cons_self) ht (fun x hx => ?_)
        (reconcile_moves context now cloud r) hP
      obtain ⟨-, hrest, hdone⟩ := List.pairwise_append.mp (List.pairwise_map.mp hapart)
      rw [← holdings_append] at hx
      obtain ⟨r', hr', ho, -⟩ := mem_holdings.mp hx
      rw [← ho]
      rcases List.mem_append.mp hr' with hr' | hr'
      · exact Or.inl (hdone r' hr' r List.mem_cons_self)
      · exact Or.inr ((List.pairwise_cons.mp hrest).1 r' hr')
  have hall := reconcileAll_induction hstep (show Q cloud [] planned from
    ⟨fun _ hr => hr, List.pairwise_map.mpr apart, h⟩)
  rw [List.nil_append] at hall
  simpa using hall.2.2

/-- What every move on one load balancer preserves beside the others, a commit preserves. -/
theorem holdings_induction {P : Cloud → List Holding → Prop} {planned : ResourceSet}
    (perm : ∀ cloud {hs hs' : List Holding}, hs ~ hs' → P cloud hs → P cloud hs')
    (keeps : ∀ r ∈ planned, r.tainted = false → ∀ {a b : Stage} {others : List Holding},
      Move context r a b → P a.cloud (held r.owner a.handle ++ others) →
      P b.cloud (held r.owner b.handle ++ others))
    {cloud : Cloud} (h : P cloud (holdings planned)) :
    P (cloudAfter context now cloud planned)
      (holdings (resourcesAfter context now cloud planned)) :=
  holdings_induction_of_pairwise (S := fun _ _ => True)
    (List.pairwise_of_forall_sublist fun _ => trivial) perm
    (fun r hr ht _ _ _ _ hm => keeps r hr ht hm) h

end Engine

end IngressControl
