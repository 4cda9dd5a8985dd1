import IngressControl.Proofs.Alignment
import IngressControl.Proofs.Fitting

/-! What the engine does not look at: the order of the instances of a handle, and the calls that the
cloud saw before. With handles that differ only in the order of their texts it makes the same calls,
and is left with such handles again. -/

namespace IngressControl
open Document (Texts)

structure Handle.Alike (h h' : Handle) : Prop where
  bare : h'.bare = h.bare
  texts : Texts h.instances
  instances : ∀ d, d ∈ h'.instances ↔ d ∈ h.instances

theorem Handle.Alike.refl {h : Handle} (ht : Texts h.instances) : h.Alike h :=
  ⟨rfl, ht, fun _ => Iff.rfl⟩

namespace Cloud

variable {log : List Call} {cloud : Cloud}

def preceded (log : List Call) (cloud : Cloud) : Cloud := { cloud with calls := log ++ cloud.calls }

/-- An earlier log changes nothing about a call but the log after it. -/
theorem perform_preceded {α : Type} {operation : Operation} {target : Document}
    {act act' : Cloud → Reply α}
    (hact : ∀ c, act' (c.preceded log) = (act c).map id (preceded log)) :
    (cloud.preceded log).perform operation target act' =
      (cloud.perform operation target act).map id (preceded log) := by
  have hcalls (outages : List Outage) : ({ (cloud.preceded log) with
      calls := (cloud.preceded log).calls ++ [⟨operation, target⟩], outages := outages } : Cloud) =
      preceded log { cloud with
        calls := cloud.calls ++ [⟨operation, target⟩], outages := outages } := by
    simp [preceded]
  have houtages : (cloud.preceded log).outages = cloud.outages := rfl
  simp only [perform, hcalls, houtages]
  cases Outage.meet ⟨operation, target⟩ cloud.outages with
  | mk reason outages =>
    cases reason with
    | none => exact hact _
    | some reason => rfl

theorem create_preceded (name : String) (attributes : Attributes)
    (tags : List (String × Document)) :
    (cloud.preceded log).create name attributes tags =
      (cloud.create name attributes tags).map id (preceded log) :=
  perform_preceded fun _ => rfl

/-- An update depends neither on the earlier log nor on the instances of the handle. -/
theorem update_preceded {h h' : Handle} (hb : h'.bare = h.bare) (attributes : Attributes) :
    (cloud.preceded log).update h' attributes =
      (cloud.update h attributes).map id (preceded log) := by
  rw [update, update, Handle.name_of_bare hb, Handle.arn_of_bare hb]
  refine perform_preceded fun c => ?_
  have hbalancers : (c.preceded log).balancers = c.balancers := rfl
  simp only [hbalancers]
  cases Ledger.get? h.arn c.balancers <;> rfl

/-- A call for targets takes of the handle nothing but its name and its name within the service. -/
structure Indifferent (call : Cloud → Handle → List Document → Reply Unit) : Prop where
  alike : ∀ (log : List Call) (cloud : Cloud) {h h' : Handle} (batch : List Document),
    h'.bare = h.bare →
    call (cloud.preceded log) h' batch = (call cloud h batch).map id (preceded log)

/-- A change of targets depends neither on the earlier log nor on the instances of the handle. -/
theorem indifferent_of_perform (operation : Operation)
    (change : List Document → List Document → List Document) :
    Indifferent (fun cloud handle instances =>
      cloud.perform operation handle.name fun cloud =>
        cloud.withinLimit instances fun cloud =>
          (.ok (), cloud.withTargets handle.arn (fun ts => change ts instances))) where
  alike log cloud h h' batch hb := by
    rw [Handle.name_of_bare hb, Handle.arn_of_bare hb]
    refine perform_preceded fun c => ?_
    have hlimit : (c.preceded log).exceedsLimit batch.length = c.exceedsLimit batch.length := rfl
    simp only [withinLimit, hlimit]
    cases c.exceedsLimit batch.length with
    | error fault => rfl
    | ok exceeds => cases exceeds <;> rfl

theorem register_indifferent : Indifferent register := indifferent_of_perform .register join

theorem deregister_indifferent : Indifferent deregister := indifferent_of_perform .deregister leave

end Cloud

/-- Clouds that hold the same and saw the same calls, each behind a log of its own. -/
def Cloud.Twins (log log' : List Call) (cloud cloud' : Cloud) : Prop :=
  ∃ c : Cloud, cloud = c.preceded log ∧ cloud' = c.preceded log'

namespace Engine

variable {log log' : List Call} {cloud cloud' : Cloud} {h h' : Handle}

structure Progress.Alike {α : Type} (log log' : List Call) (p p' : Progress α) : Prop where
  outcome : p'.outcome = p.outcome
  handle : p.handle.Alike p'.handle
  cloud : p.cloud.Twins log log' p'.cloud

section Calls

variable {call : Cloud → Handle → List Document → Reply Unit}
  {change : List Document → List Document → List Document}

structure Memberwise (change : List Document → List Document → List Document) : Prop where
  texts : ∀ {instances batch}, Texts instances → Texts batch → Texts (change instances batch)
  mem : ∀ {instances instances' batch}, (∀ d, d ∈ instances' ↔ d ∈ instances) →
    ∀ d, d ∈ change instances' batch ↔ d ∈ change instances batch

theorem memberwise_append : Memberwise fun instances batch => instances ++ batch where
  texts hi hb := hi.append hb
  mem hm d := by rw [List.mem_append, List.mem_append, hm]

theorem memberwise_without : Memberwise without where
  texts hi _ := hi.mono fun _ h => (List.mem_filter.mp h).1
  mem hm d := by rw [without, without, List.mem_filter, List.mem_filter, hm]

/-- Calls in batches on twin services and alike handles end alike. -/
theorem callBatches_alike (hcall : Cloud.Indifferent call) (hchange : Memberwise change)
    {batches : List (List Document)} (hb : ∀ batch ∈ batches, Texts batch)
    (ht : cloud.Twins log log' cloud') (ha : h.Alike h') :
    (callBatches call change cloud h batches).Alike log log'
      (callBatches call change cloud' h' batches) := by
  induction batches generalizing cloud cloud' h h' with
  | nil => exact ⟨rfl, ha, ht⟩
  | cons batch rest ih =>
    obtain ⟨c, rfl, rfl⟩ := ht
    have hbatch := hb batch List.mem_cons_self
    simp only [callBatches, hcall.alike log c batch rfl, hcall.alike log' c batch ha.bare]
    cases call c h batch with
    | mk outcome c =>
      cases outcome with
      | error fault => exact ⟨rfl, ha, c, rfl, rfl⟩
      | ok =>
        have htexts := hchange.texts ha.texts hbatch
        obtain ⟨sorted, hs, hmem⟩ := exists_sortedSet htexts
        have hs' := (sortedSet_eq_of_mem htexts (hchange.mem ha.instances)).trans hs
        simp only [Prod.map, id, hs, hs']
        exact ih (fun b hm => hb b (List.mem_cons_of_mem _ hm)) ⟨c, rfl, rfl⟩
          ⟨ha.bare, htexts.mono fun d hd => (hmem d).mp hd, fun _ => Iff.rfl⟩

theorem callInBatches_alike (hcall : Cloud.Indifferent call) (hchange : Memberwise change)
    {instances : List Document} (hi : Texts instances) (limit : Int)
    (ht : cloud.Twins log log' cloud') (ha : h.Alike h') :
    (callInBatches call change limit cloud h instances).Alike log log'
      (callInBatches call change limit cloud' h' instances) := by
  unfold callInBatches
  split
  · exact ⟨rfl, ha, ht⟩
  · rename_i batches hb
    refine callBatches_alike hcall hchange (fun batch hm => hi.mono fun d hd => ?_) ht ha
    rw [← flatten_groupsForLimit hb]
    exact List.mem_flatten.mpr ⟨batch, hm, hd⟩

end Calls

/-- Alike handles are aligned alike on twin services. -/
theorem alignTargets_alike {wanted : List Document} (hw : Texts wanted) (limit : Int)
    (ht : cloud.Twins log log' cloud') (ha : h.Alike h') :
    (alignTargets limit cloud h wanted).Alike log log' (alignTargets limit cloud' h' wanted) := by
  obtain ⟨a, halign, hadd, hremove⟩ := exists_alignment ha.texts hw
  have halign' := (alignment_eq_of_mem ha.texts hw ha.instances).trans halign
  unfold alignTargets
  simp only [halign, halign']
  split
  · exact ⟨rfl, ha, ht⟩
  · -- if registering fails, deregistering is not tried on either side
    have hadded := callInBatches_alike Cloud.register_indifferent memberwise_append hadd limit ht ha
    rw [hadded.outcome]
    split
    · exact ⟨rfl, hadded.handle, hadded.cloud⟩
    · have hremoved := callInBatches_alike Cloud.deregister_indifferent memberwise_without hremove
        limit hadded.cloud hadded.handle
      exact ⟨congrArg (Except.map fun _ => true) hremoved.outcome, hremoved.handle,
        hremoved.cloud⟩

structure Applied.Alike (log log' : List Call) (a a' : Applied) : Prop where
  outcome : a'.outcome = a.outcome
  handle : Option.Rel Handle.Alike a.handle a'.handle
  cloud : a.cloud.Twins log log' a'.cloud

section Resources

variable {context : Context} {now : Moment} {spec : DesiredSpec}

/-- Creations on twin services end alike. -/
theorem applyCreate_alike (hw : Texts spec.instances) (owner : Owner)
    (ht : cloud.Twins log log' cloud') :
    (applyCreate context cloud owner spec).Alike log log'
      (applyCreate context cloud' owner spec) := by
  obtain ⟨c, rfl, rfl⟩ := ht
  unfold applyCreate
  simp only [Cloud.create_preceded]
  cases hc : c.create (nameOfKey context.clusterName owner.key) (attributes spec)
      (tags context owner) with
  | mk outcome c' =>
    rcases Cloud.create_cases hc with ⟨-, ⟨fault, rfl⟩, -⟩ | ⟨rfl, -, -⟩
    · exact ⟨rfl, .none, c', rfl, rfl⟩
    · -- a new load balancer has no instances
      have hmade : (c.made (nameOfKey context.clusterName owner.key) (attributes spec)
          (tags context owner)).Alike _ := .refl Texts.nil
      have haligned := alignTargets_alike hw context.maxTargets
        (⟨c', rfl, rfl⟩ : (c'.preceded log).Twins log log' (c'.preceded log')) hmade
      exact ⟨congrArg (Except.map _) haligned.outcome, .some haligned.handle, haligned.cloud⟩

theorem applyAttributes_alike (spec : DesiredSpec) (ht : cloud.Twins log log' cloud')
    (ha : h.Alike h') :
    (∃ fault c c', applyAttributes cloud h spec = (.error fault, c) ∧
      applyAttributes cloud' h' spec = (.error fault, c') ∧ c.Twins log log' c') ∨
    ∃ k k' updated c c', applyAttributes cloud h spec = (.ok (k, updated), c) ∧
      applyAttributes cloud' h' spec = (.ok (k', updated), c') ∧ k.Alike k' ∧
      c.Twins log log' c' := by
  unfold applyAttributes
  rw [spec.needsUpdate_of_bare ha.bare]
  cases spec.needsUpdate h with
  | error fault => exact Or.inl ⟨fault, cloud, cloud', rfl, rfl, ht⟩
  | ok needed =>
    cases needed with
    | false => exact Or.inr ⟨h, h', false, cloud, cloud', rfl, rfl, ha, ht⟩
    | true =>
      obtain ⟨c, rfl, rfl⟩ := ht
      have hupdate : (c.preceded log).update h (attributes spec) =
          (c.update h (attributes spec)).map id (Cloud.preceded log) := Cloud.update_preceded rfl _
      have hupdate' : (c.preceded log').update h' (attributes spec) =
          (c.update h (attributes spec)).map id (Cloud.preceded log') :=
        Cloud.update_preceded ha.bare _
      simp only [hupdate, hupdate']
      cases c.update h (attributes spec) with
      | mk outcome c =>
        cases outcome with
        | error fault => exact Or.inl ⟨fault, _, _, rfl, rfl, c, rfl, rfl⟩
        | ok updated =>
          exact Or.inr ⟨_, _, true, _, _, rfl, rfl, ⟨rfl, ha.texts, ha.instances⟩, c, rfl, rfl⟩

theorem applyUpdate_alike (hw : Texts spec.instances) (ht : cloud.Twins log log' cloud')
    (ha : h.Alike h') :
    (applyUpdate context cloud h spec).Alike log log' (applyUpdate context cloud' h' spec) := by
  unfold applyUpdate
  rcases applyAttributes_alike spec ht ha with
    ⟨fault, c, c', hf, hf', hc⟩ | ⟨k, k', updated, c, c', hk, hk', hkk, hc⟩
  · simp only [hf, hf']
    exact ⟨rfl, .some ha, hc⟩
  · have haligned := alignTargets_alike hw context.maxTargets hc hkk
    simp only [hk, hk']
    exact ⟨congrArg (Except.map _) haligned.outcome, .some haligned.handle, haligned.cloud⟩

/-- Entries with one owner, one specification and alike handles are applied alike on twin
services. -/
theorem apply_alike {r r' : Resource} (ho : r'.owner = r.owner) (hd : r.desired = some spec)
    (hd' : r'.desired = some spec) (hw : Texts spec.instances)
    (hh : Option.Rel Handle.Alike r.handle r'.handle) (ht : cloud.Twins log log' cloud') :
    (apply context cloud r).Alike log log' (apply context cloud' r') := by
  cases hr : r.handle with
  | none =>
    cases hr' : r'.handle with
    | none =>
      simp only [apply, hd, hd', hr, hr', ho]
      exact applyCreate_alike hw r.owner ht
    | some h' =>
      rw [hr, hr'] at hh
      cases hh
  | some h =>
    cases hr' : r'.handle with
    | none =>
      rw [hr, hr'] at hh
      cases hh
    | some h' =>
      rw [hr, hr'] at hh
      cases hh with
      | some ha =>
        simp only [apply, hd, hd', hr, hr']
        exact applyUpdate_alike hw ht ha

end Resources

end Engine

/-- Two resources that differ only in the order of instances and, if they are tainted, in what was
wanted of them and when they were reconciled. -/
structure Resource.Alike (r r' : Resource) : Prop where
  owner : r'.owner = r.owner
  tainted : r'.tainted = r.tainted
  handle : Option.Rel Handle.Alike r.handle r'.handle
  error : r'.error = r.error
  status : r'.status = r.status
  desired : r.tainted = false → r'.desired = r.desired
  lastReconciled : r.tainted = false → r'.lastReconciled = r.lastReconciled

namespace Engine

variable {log log' : List Call} {cloud cloud' : Cloud} {context : Context} {now : Moment}

/-- What is reconciled with a spec is left alike, whatever it was before that. -/
theorem reconcile_alike {r r' : Resource} {spec : DesiredSpec} (ho : r'.owner = r.owner)
    (hn : r.tainted = false) (hn' : r'.tainted = false) (hd : r.desired = some spec)
    (hd' : r'.desired = some spec) (hw : Texts spec.instances)
    (hh : Option.Rel Handle.Alike r.handle r'.handle) (ht : cloud.Twins log log' cloud') :
    (reconcile context now cloud r).cloud.Twins log log'
        (reconcile context now cloud' r').cloud ∧
      (reconcile context now cloud r).resource.Alike
        (reconcile context now cloud' r').resource := by
  have happlied : (apply context cloud r).Alike log log' (apply context cloud' r') :=
    apply_alike ho hd hd' hw hh ht
  have hnot : ¬ r.tainted = true := by simp [hn]
  have hnot' : ¬ r'.tainted = true := by simp [hn']
  simp only [reconcile, if_neg hnot, if_neg hnot', happlied.outcome]
  cases (apply context cloud r).outcome with
  | error fault =>
    exact ⟨happlied.cloud, ho, hn'.trans hn.symm, happlied.handle, rfl, rfl,
      fun _ => hd'.trans hd.symm, fun _ => rfl⟩
  | ok status =>
    exact ⟨happlied.cloud, ho, hn'.trans hn.symm, happlied.handle, rfl, rfl,
      fun _ => hd'.trans hd.symm, fun _ => rfl⟩

section Declared

variable {services : Source} {ingresses instances : List Document}
  {previous previous' : ResourceSet}

/-- An ingress is reconciled alike from two sets that have alike handles under its identity. -/
theorem reconcile_resourceOf_alike (hi : Texts instances) {id : Identity}
    (hh : Option.Rel Handle.Alike ((previous.find? (.ingress id)).bind Resource.handle)
      ((previous'.find? (.ingress id)).bind Resource.handle))
    (ht : cloud.Twins log log' cloud') (ingress : Document) :
    (reconcile context now cloud
        (resourceOf services instances previous id ingress)).cloud.Twins log log'
      (reconcile context now cloud' (resourceOf services instances previous' id ingress)).cloud ∧
    (reconcile context now cloud (resourceOf services instances previous id ingress)).resource.Alike
      (reconcile context now cloud'
        (resourceOf services instances previous' id ingress)).resource := by
  cases hs : Ingress.desiredSpec ingress (Service.nodePort services) instances with
  | ok spec =>
    rw [resourceOf_of_ok hs, resourceOf_of_ok hs]
    exact reconcile_alike rfl rfl rfl rfl rfl (instances_of_desiredSpec hs ▸ hi) hh ht
  | error fault =>
    -- a tainted resource takes over the handle and is not touched
    simp only [resourceOf, hs]
    exact ⟨ht, rfl, rfl, hh, rfl, rfl, Bool.noConfusion, Bool.noConfusion⟩

/-- For the declared resources a cycle makes the same calls, whichever of two sets it comes from, if
the handles in them are alike. -/
theorem declaredBy_alike (context : Context) (now : Moment) (services : Source)
    (ingresses : List Document) (hi : Texts instances)
    (hh : ∀ id, Option.Rel Handle.Alike ((previous.find? (.ingress id)).bind Resource.handle)
      ((previous'.find? (.ingress id)).bind Resource.handle))
    (ht : cloud.Twins log log' cloud') :
    (cloudAfter context now cloud
        (declaredBy context services previous ingresses instances)).Twins log log'
      (cloudAfter context now cloud'
        (declaredBy context services previous' ingresses instances)) ∧
    List.Forall₂ Resource.Alike
      (resourcesAfter context now cloud
        (declaredBy context services previous ingresses instances))
      (resourcesAfter context now cloud'
        (declaredBy context services previous' ingresses instances)) := by
  unfold declaredBy
  generalize owned context ingresses = entries
  induction entries generalizing cloud cloud' with
  | nil => exact ⟨ht, .nil⟩
  | cons entry rest ih =>
    obtain ⟨hfirst, halike⟩ := reconcile_resourceOf_alike hi (hh entry.1) ht entry.2
    obtain ⟨hrest, hall⟩ := ih hfirst
    simp only [List.map_cons, cloudAfter_cons, resourcesAfter_cons]
    exact ⟨hrest, .cons halike hall⟩

end Declared

end Engine

end IngressControl
