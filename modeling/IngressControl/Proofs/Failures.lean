import IngressControl.Proofs.Alignment

/-! What can stop a reconciliation: documents that cannot be compared, be keys or be read as texts,
and calls that the service refuses. Batches stop it only if the engine cannot cut them or the
service does not take them. -/

namespace IngressControl

variable {α β : Type}

/-- A computation fails, if at all, with such a fault. -/
def FailsWith (P : Fault → Prop) (x : Except Fault α) : Prop := ∀ fault, x = .error fault → P fault

namespace FailsWith

variable {P : Fault → Prop} {x : Except Fault α}

theorem ok (P : Fault → Prop) (a : α) : FailsWith P (.ok a) := nofun

theorem error {fault : Fault} (h : P fault) : FailsWith P (.error fault : Except Fault α) := by
  intro fault' he
  obtain rfl := Except.error.inj he
  exact h

theorem bind {f : α → Except Fault β} (h : FailsWith P x) (hf : ∀ a, FailsWith P (f a)) :
    FailsWith P (x >>= f) := by
  intro fault he
  rcases bind_eq_error he with hx | ⟨a, -, ha⟩
  · exact h fault hx
  · exact hf a fault ha

theorem map (h : FailsWith P x) (f : α → β) : FailsWith P (x.map f) := by
  cases x with
  | error fault => exact .error (h fault rfl)
  | ok a => exact .ok P (f a)

theorem mapM {f : α → Except Fault β} (hf : ∀ a, FailsWith P (f a)) (as : List α) :
    FailsWith P (as.mapM f) := by
  induction as with
  | nil => exact .ok P []
  | cons a rest ih =>
    rw [List.mapM_cons]
    exact (hf a).bind fun b => ih.bind fun bs => .ok P (b :: bs)

end FailsWith

inductive Fault.OfDocuments : Fault → Prop
  | noOrder (operator : String) (left right : Kind) : OfDocuments (.noOrder operator left right)
  | notAKey (kind : Kind) : OfDocuments (.notAKey kind)
  | noOperation (kind : Kind) (name : String) : OfDocuments (.noOperation kind name)

namespace Document

open Fault (OfDocuments)

theorem less_failsWith (x y : Document) : FailsWith OfDocuments (less x y) := by
  apply less.induct (fun x y => FailsWith OfDocuments (less x y))
    (fun xs ys => FailsWith OfDocuments (lessItems xs ys))
  case case1 =>
    intro s t
    exact .ok _ _
  case case2 =>
    intro xs ys ih
    rwa [less]
  case case3 =>
    intro x y hstring harray a b hb ha
    rw [less, ha, hb]
    · exact .ok _ _
    · exact hstring
    · exact harray
  case case4 =>
    intro x y hstring harray hnot
    rw [less]
    · split
      · rename_i a b ha hb
        exact absurd hb (hnot a b ha)
      · exact .error (.noOrder _ _ _)
    · exact hstring
    · exact harray
  case case5 => exact .ok _ _
  case case6 => exact fun _ _ => .ok _ _
  case case7 => exact fun _ _ => .ok _ _
  case case8 =>
    intro x xs y ys hsame ih
    rwa [lessItems, if_pos hsame]
  case case9 =>
    intro x xs y ys hsame ih
    rwa [lessItems, if_neg hsame]

theorem takeRun_failsWith (down : Bool) (last : Document) (ds : List Document) :
    FailsWith OfDocuments (takeRun down last ds) := by
  induction ds generalizing last with
  | nil => exact .ok _ _
  | cons x rest ih =>
    rw [takeRun]
    split
    · rename_i fault hless
      exact .error (less_failsWith x last fault hless)
    · split
      · exact (ih x).map _
      · exact .ok _ _

theorem headRun_failsWith (ds : List Document) : FailsWith OfDocuments (headRun ds) := by
  unfold headRun
  split
  · rename_i x y rest
    split
    · rename_i fault hless
      exact .error (less_failsWith y x fault hless)
    · exact (takeRun_failsWith _ y rest).map _
  · exact .ok _ _

theorem position_failsWith (sorted : Array Document) (x : Document) (low high : Nat) :
    FailsWith OfDocuments (position sorted x low high) := by
  fun_induction position sorted x low high with
  | case1 low high hlt middle fault hless => exact .error (less_failsWith _ _ fault hless)
  | case2 low high hlt middle hless ih => exact ih
  | case3 low high hlt middle hless ih => exact ih
  | case4 low high hge => exact .ok _ _

theorem insertAll_failsWith (sorted : Array Document) (ds : List Document) :
    FailsWith OfDocuments (insertAll sorted ds) := by
  induction ds generalizing sorted with
  | nil => exact .ok _ _
  | cons x rest ih =>
    rw [insertAll]
    split
    · rename_i fault hposition
      exact .error (position_failsWith _ _ _ _ fault hposition)
    · exact ih _

theorem merge_failsWith (xs ys : List Document) : FailsWith OfDocuments (merge xs ys) := by
  fun_induction merge xs ys with
  | case1 ys => exact .ok _ _
  | case2 xs hne => exact .ok _ _
  | case3 x xs y ys fault hless => exact .error (less_failsWith _ _ fault hless)
  | case4 x xs y ys hless ih => exact ih.map _
  | case5 x xs y ys hless ih => exact ih.map _

/-- Documents fail to be sorted only where two of them cannot be compared. -/
theorem sortRuns_failsWith (least fuel : Nat) (done ds : List Document) :
    FailsWith OfDocuments (sortRuns least fuel done ds) := by
  fun_induction sortRuns least fuel done ds with
  | case1 done ds => exact .ok _ _
  | case2 fuel done hne => exact .ok _ _
  | case3 fuel done ds hne ih =>
    refine (headRun_failsWith ds).bind fun head => ?_
    refine (insertAll_failsWith _ _).bind fun filled => ?_
    exact (merge_failsWith done filled.toList).bind fun merged => ih head.1 head.2 merged

/-- Sorting fails only on a pair without an order. -/
theorem sort_failsWith (ds : List Document) : FailsWith OfDocuments (sort ds) := by
  unfold sort
  split
  · exact .ok _ _
  · exact sortRuns_failsWith _ _ _ _

theorem asKey_failsWith (d : Document) : FailsWith OfDocuments d.asKey := by
  unfold asKey
  split
  · exact .error (.notAKey _)
  · exact .error (.notAKey _)
  · exact .ok _ _

end Document

open Fault (OfDocuments)

/-- The digest of documents fails only as sorting and hashing them does, never with a refused
call. -/
theorem Digest.ofValues_failsWith (values : List Document) :
    FailsWith OfDocuments (ofValues values) := by
  have htext (d : Document) : FailsWith OfDocuments (textOf d) := by
    unfold textOf
    split
    · exact .ok _ _
    · exact .error (.noOperation _ _)
  refine (Document.sort_failsWith values).bind fun sorted => ?_
  exact (FailsWith.mapM htext sorted).bind fun texts => .ok _ _

/-- Whether the attributes differ can fail only on documents that have no order or are no keys. -/
theorem DesiredSpec.needsUpdate_failsWith (spec : DesiredSpec) (handle : Handle) :
    FailsWith OfDocuments (spec.needsUpdate handle) := by
  have hholds (wanted values : List Document) : FailsWith OfDocuments (holdsAll wanted values) :=
    (Document.sort_failsWith values).map _
  unfold needsUpdate
  split
  · exact .ok _ _
  · refine (hholds _ handle.subnets).bind fun subnets => ?_
    split
    · exact .ok _ _
    · refine (Digest.ofValues_failsWith handle.securityGroups).bind fun digest => ?_
      split
      · exact .ok _ _
      · exact (hholds _ handle.nodePorts).bind fun ports => .ok _ _

inductive Fault.OfCalls : Fault → Prop
  | outage (reason : String) : OfCalls (.outage reason)
  | loadBalancerMissing (arn : String) : OfCalls (.loadBalancerMissing arn)

open Fault (OfCalls)

namespace Cloud

variable {cloud : Cloud}

/-- A call fails by an outage, or as the change that it makes fails. -/
theorem perform_failsWith {operation : Operation} {target : Document} {act : Cloud → Reply α}
    (h : ∀ c, c.store = cloud.store → FailsWith OfCalls (act c).1) :
    FailsWith OfCalls (cloud.perform operation target act).1 := by
  cases hp : cloud.perform operation target act with
  | mk outcome cloud' =>
    rcases perform_cases hp with ⟨-, ⟨reason, rfl⟩, -⟩ | ⟨c, hs, -, hact⟩
    · exact .error (.outage reason)
    · have hc := h c hs
      rwa [hact] at hc

/-- Nothing but the service stops a creation. -/
theorem create_failsWith (cloud : Cloud) (name : String) (attributes : Attributes)
    (tags : List (String × Document)) :
    FailsWith OfCalls (cloud.create name attributes tags).1 :=
  perform_failsWith fun _ _ => .ok _ _

theorem update_failsWith (cloud : Cloud) (handle : Handle) (attributes : Attributes) :
    FailsWith OfCalls (cloud.update handle attributes).1 := by
  refine perform_failsWith fun c _ => ?_
  split
  · exact .error (.loadBalancerMissing _)
  · exact .ok _ _

theorem delete_failsWith (cloud : Cloud) (handle : Handle) :
    FailsWith OfCalls (cloud.delete handle).1 :=
  perform_failsWith fun _ _ => .ok _ _

/-- A call that changes targets, for a batch within the limit, is refused by an outage only. -/
theorem perform_withinLimit_failsWith {operation : Operation} {target : Document}
    {batch : List Document} {change : Cloud → Cloud}
    (h : cloud.exceedsLimit batch.length = .ok false) :
    FailsWith OfCalls (cloud.perform operation target fun cloud =>
      cloud.withinLimit batch fun cloud => (.ok (), change cloud)).1 := by
  refine perform_failsWith fun c hs => ?_
  have hc : c.exceedsLimit batch.length = .ok false := by
    rw [exceedsLimit, limit_of_store hs]
    exact h
  simp only [withinLimit, hc]
  exact .ok _ _

/-- A batch that the service takes is refused only by the service. -/
theorem register_failsWith {batch : List Document}
    (h : cloud.exceedsLimit batch.length = .ok false) (handle : Handle) :
    FailsWith OfCalls (cloud.register handle batch).1 := perform_withinLimit_failsWith h

/-- A batch that the service takes is refused only by the service. -/
theorem deregister_failsWith {batch : List Document}
    (h : cloud.exceedsLimit batch.length = .ok false) (handle : Handle) :
    FailsWith OfCalls (cloud.deregister handle batch).1 := perform_withinLimit_failsWith h

end Cloud

inductive Fault.Ordinary (fault : Fault) : Prop
  | documents (h : fault.OfDocuments)
  | calls (h : fault.OfCalls)

open Fault (Ordinary)

namespace Engine

theorem setOf_failsWith (ds : List Document) : FailsWith OfDocuments (setOf ds) :=
  (FailsWith.mapM Document.asKey_failsWith ds).map distinct

/-- Which targets come and go is undecided only where targets cannot be compared or are no keys. -/
theorem alignment_failsWith (current wanted : List Document) :
    FailsWith OfDocuments (alignment current wanted) := by
  refine (setOf_failsWith current).bind fun current => ?_
  refine (setOf_failsWith wanted).bind fun wanted => ?_
  refine (Document.sort_failsWith (without wanted current)).bind fun toAdd => ?_
  exact (Document.sort_failsWith (without current wanted)).bind fun toRemove => .ok _ _

/-- Whatever instances there are, they can be cut into batches that the service takes. -/
def Passable (cloud : Cloud) (most : Int) : Prop :=
  ∀ instances : List Document, ∃ batches, groupsForLimit instances most = .ok batches ∧
    ∀ batch ∈ batches, cloud.exceedsLimit batch.length = .ok false

/-- Batches pass a service that takes calls of their size, as long as the size is too small to make
the number of groups vanish. -/
theorem passable_of_allows {cloud : Cloud} {most : Int} (ha : cloud.Allows most) (hpos : 0 < most)
    (hv : most.toNat < Nat.pow 2 vanishingPower) : Passable cloud most := by
  intro instances
  obtain ⟨batches, hb⟩ := exists_groupsForLimit instances hpos hv
  exact ⟨batches, hb, fun batch hm => ha _ (length_le_of_mem_groupsForLimit hb hm)⟩

/-- Whether batches pass depends on the limit of the service only. -/
theorem Passable.of_limit_eq {cloud cloud' : Cloud} {most : Int} (h : Passable cloud most)
    (he : cloud'.limit = cloud.limit) : Passable cloud' most := by
  intro instances
  obtain ⟨batches, hb, hall⟩ := h instances
  refine ⟨batches, hb, fun batch hm => ?_⟩
  rw [Cloud.exceedsLimit, he]
  exact hall batch hm

section Calls

variable {call : Cloud → Handle → List Document → Reply Unit}
  {change change' : List Document → List Document → List Document}
  {cloud : Cloud} {h : Handle} {most : Int} {instances : List Document}

/-- Moving targets leaves the limit of the service alone. -/
theorem limit_callBatches (hcall : Cloud.ChangesTargets call change') (cloud : Cloud) (h : Handle)
    (batches : List (List Document)) :
    (callBatches call change cloud h batches).cloud.limit = cloud.limit := by
  induction batches generalizing cloud h with
  | nil => rfl
  | cons batch rest ih =>
    simp only [callBatches]
    cases hc : call cloud h batch with
    | mk outcome cloud' =>
      rcases hcall.cases hc with ⟨-, ⟨fault, rfl⟩, hs, -⟩ | ⟨rfl, hs, -⟩
      · exact Cloud.limit_of_store hs
      · have hlimit : cloud'.limit = cloud.limit := (Cloud.limit_of_effect hs).trans rfl
        cases hset : sortedSet (change h.instances batch) with
        | error fault => exact hlimit
        | ok instances => exact (ih cloud' _).trans hlimit

theorem limit_callInBatches (hcall : Cloud.ChangesTargets call change') (cloud : Cloud)
    (h : Handle) (most : Int) (instances : List Document) :
    (callInBatches call change most cloud h instances).cloud.limit = cloud.limit := by
  unfold callInBatches
  split
  · rfl
  · exact limit_callBatches hcall cloud h _

/-- Calls in batches fail in an ordinary way if the service takes every batch. -/
theorem callBatches_failsWith (hcall : Cloud.ChangesTargets call change')
    (hfails : ∀ {cloud : Cloud} {batch : List Document},
      cloud.exceedsLimit batch.length = .ok false → ∀ h, FailsWith OfCalls (call cloud h batch).1)
    {batches : List (List Document)}
    (hb : ∀ batch ∈ batches, cloud.exceedsLimit batch.length = .ok false) :
    FailsWith Ordinary (callBatches call change cloud h batches).outcome := by
  induction batches generalizing cloud h with
  | nil => exact .ok _ _
  | cons batch rest ih =>
    have hfirst := hfails (hb batch List.mem_cons_self) h
    simp only [callBatches]
    cases hc : call cloud h batch with
    | mk outcome cloud' =>
      rw [hc] at hfirst
      rcases hcall.cases hc with ⟨-, ⟨fault, rfl⟩, -, -⟩ | ⟨rfl, hs, -⟩
      · exact .error (.calls (hfirst fault rfl))
      · cases hset : sortedSet (change h.instances batch) with
        | error fault => exact .error (.documents (Document.sort_failsWith _ fault hset))
        | ok instances =>
          -- the limit is what it was, so the other batches pass as well
          refine ih fun b hm => ?_
          have hlimit : cloud'.limit = cloud.limit := (Cloud.limit_of_effect hs).trans rfl
          rw [Cloud.exceedsLimit, hlimit]
          exact hb b (List.mem_cons_of_mem _ hm)

theorem callInBatches_failsWith (hcall : Cloud.ChangesTargets call change')
    (hfails : ∀ {cloud : Cloud} {batch : List Document},
      cloud.exceedsLimit batch.length = .ok false → ∀ h, FailsWith OfCalls (call cloud h batch).1)
    (hp : Passable cloud most) (h : Handle) (instances : List Document) :
    FailsWith Ordinary (callInBatches call change most cloud h instances).outcome := by
  obtain ⟨batches, hb, hall⟩ := hp instances
  rw [callInBatches, hb]
  exact callBatches_failsWith hcall hfails hall

end Calls

section Apply

variable {context : Context} {cloud : Cloud}

/-- The alignment of targets fails only in an ordinary way where batches pass. -/
theorem alignTargets_failsWith {most : Int} (hp : Passable cloud most) (h : Handle)
    (wanted : List Document) : FailsWith Ordinary (alignTargets most cloud h wanted).outcome := by
  unfold alignTargets
  split
  · rename_i fault ha
    exact .error (.documents (alignment_failsWith _ _ fault ha))
  · rename_i a ha
    split
    · exact .ok _ _
    · have hadded : FailsWith Ordinary (callInBatches Cloud.register (fun is batch => is ++ batch)
          most cloud h a.toAdd).outcome :=
        callInBatches_failsWith Cloud.register_changesTargets Cloud.register_failsWith hp h a.toAdd
      have hlimit : (callInBatches Cloud.register (fun is batch => is ++ batch) most cloud h
          a.toAdd).cloud.limit = cloud.limit :=
        limit_callInBatches Cloud.register_changesTargets cloud h most a.toAdd
      dsimp only
      split
      · rename_i fault hfault
        exact .error (hadded fault hfault)
      · exact (callInBatches_failsWith Cloud.deregister_changesTargets Cloud.deregister_failsWith
          (hp.of_limit_eq hlimit) _ a.toRemove).map _

theorem applyCreate_failsWith (hp : Passable cloud context.maxTargets) (owner : Owner)
    (spec : DesiredSpec) : FailsWith Ordinary (applyCreate context cloud owner spec).outcome := by
  have hfails := cloud.create_failsWith (nameOfKey context.clusterName owner.key)
    (attributes spec) (tags context owner)
  unfold applyCreate
  cases hc : cloud.create (nameOfKey context.clusterName owner.key) (attributes spec)
      (tags context owner) with
  | mk outcome cloud' =>
    rw [hc] at hfails
    rcases Cloud.create_cases hc with ⟨-, ⟨fault, rfl⟩, -⟩ | ⟨rfl, hs, -⟩ <;> simp only [hc]
    · exact .error (.calls (hfails fault rfl))
    · have hlimit : cloud'.limit = cloud.limit := (Cloud.limit_of_effect hs).trans rfl
      exact (alignTargets_failsWith (hp.of_limit_eq hlimit) _ _).map _

/-- The update of attributes fails in an ordinary way and leaves the limit of the service alone. -/
theorem applyAttributes_failsWith (cloud : Cloud) (h : Handle) (spec : DesiredSpec) :
    FailsWith Ordinary (applyAttributes cloud h spec).1 ∧
      (applyAttributes cloud h spec).2.limit = cloud.limit := by
  have hfails := cloud.update_failsWith h (attributes spec)
  unfold applyAttributes
  cases hn : spec.needsUpdate h with
  | error fault => exact ⟨.error (.documents (spec.needsUpdate_failsWith h fault hn)), rfl⟩
  | ok needed =>
    cases needed with
    | false => exact ⟨.ok _ _, rfl⟩
    | true =>
      cases hc : cloud.update h (attributes spec) with
      | mk outcome cloud' =>
        rw [hc] at hfails
        rcases Cloud.update_cases hc with ⟨-, ⟨fault, rfl⟩, hs, -⟩ | ⟨b, -, rfl, hs, -⟩
        · exact ⟨.error (.calls (hfails fault rfl)), Cloud.limit_of_store hs⟩
        · exact ⟨.ok _ _, (Cloud.limit_of_effect hs).trans rfl⟩

theorem applyUpdate_failsWith (hp : Passable cloud context.maxTargets) (h : Handle)
    (spec : DesiredSpec) : FailsWith Ordinary (applyUpdate context cloud h spec).outcome := by
  obtain ⟨hfails, hlimit⟩ := applyAttributes_failsWith cloud h spec
  unfold applyUpdate
  cases hc : applyAttributes cloud h spec with
  | mk outcome cloud' =>
    rw [hc] at hfails hlimit
    cases outcome with
    | error fault => exact .error (hfails fault rfl)
    | ok result => exact (alignTargets_failsWith (hp.of_limit_eq hlimit) _ _).map _

theorem applyDelete_failsWith (cloud : Cloud) (h : Handle) :
    FailsWith Ordinary (applyDelete cloud h).outcome := by
  have hfails := cloud.delete_failsWith h
  unfold applyDelete
  cases hc : cloud.delete h with
  | mk outcome cloud' =>
    rw [hc] at hfails
    cases outcome with
    | error fault => exact .error (.calls (hfails fault rfl))
    | ok done => exact .ok _ _

/-- As long as batches pass, what stops the calls for a resource is a refused call, or documents
that cannot be compared or read. -/
theorem apply_failsWith (hp : Passable cloud context.maxTargets) (r : Resource) :
    FailsWith Ordinary (apply context cloud r).outcome := by
  unfold apply
  split
  · exact .ok _ _
  · exact applyDelete_failsWith cloud _
  · exact applyCreate_failsWith hp r.owner _
  · exact applyUpdate_failsWith hp _ _

end Apply

end Engine

end IngressControl
