import IngressControl.Proofs.Shapes
import IngressControl.Proofs.Tasks

/-! What a cycle leaves of an engine. A cycle that cannot be planned counts itself as failed; every
other one adopts what became of its plan, and its counters agree with what it adopted. -/

namespace IngressControl.Engine

def missed (engine : Engine) : Engine :=
  { engine with stats := { engine.stats with
    syncCount := engine.stats.syncCount + 1
    failedSyncs := engine.stats.failedSyncs + 1 } }

def isFailure (r : Resource) : Bool := !r.tainted && decide (r.status = .failed)

def adopt (engine : Engine) (now : Moment) (done : ResourceSet) : Engine :=
  { engine with
    resources := done.filter isKept
    stats := { engine.stats with
      syncCount := engine.stats.syncCount + 1
      reconcileErrors := engine.stats.reconcileErrors + done.countP isFailure
      managedResources := (done.filter isKept).length
      lastSync := some now } }

def failures (set : ResourceSet) : Nat := set.countP fun r => decide (r.status = .failed)

inductive Stands (r : Resource) : Prop
  | tainted (tainted : r.tainted = true) (status : r.status = .tainted) (error : r.error.isSome)
  | settled (untainted : r.tainted = false)
      (status : r.status = .created ∨ r.status = .modified ∨ r.status = .ready)
      (error : r.error = none) (wanted : r.desired.isSome) (handle : r.handle.isSome)
  | deleted (untainted : r.tainted = false) (status : r.status = .deleted) (error : r.error = none)
      (unwanted : r.desired = none) (handle : r.handle = none)
  | failed (untainted : r.tainted = false) (status : r.status = .failed) (error : r.error.isSome)
      (kept : r.desired.isSome ∨ r.handle.isSome)

section Stands

variable {r : Resource}

/-- Only what was deleted is not kept. -/
theorem Stands.isKept_iff (h : Stands r) : isKept r = true ↔ r.status ≠ .deleted := by
  cases h with
  | tainted ht hs _ => simp [isKept, ht, hs]
  | settled _ hs _ hd _ => rcases hs with hs | hs | hs <;> simp [isKept, hd, hs]
  | deleted ht hs _ hd hh => simp [isKept, ht, hs, hd, hh]
  | failed _ hs _ hk => rcases hk with hk | hk <;> simp [isKept, hk, hs]

/-- What failed is kept, and it counts. -/
theorem Stands.isFailure_eq (h : Stands r) :
    isFailure r = (decide (r.status = .failed) && isKept r) := by
  cases h with
  | tainted ht hs _ => simp [isFailure, ht, hs]
  | settled _ hs _ _ _ => rcases hs with hs | hs | hs <;> simp [isFailure, hs]
  | deleted _ hs _ _ _ => simp [isFailure, hs]
  | failed ht hs _ hk => rcases hk with hk | hk <;> simp [isFailure, isKept, ht, hs, hk]

/-- So the errors that a cycle counts are the failed entries of the set that it commits. -/
theorem countP_isFailure {done : ResourceSet} (h : ∀ r ∈ done, Stands r) :
    done.countP isFailure = failures (done.filter isKept) := by
  rw [failures, List.countP_filter]
  exact List.countP_congr fun r hr => by rw [(h r hr).isFailure_eq]

end Stands

section Listing

variable (context : Context) (previous : ResourceSet) {sources : Sources} {fault : Fault}
  {ingresses instances : List Document}

theorem plan_of_ingresses (h : sources.ingresses.list = .error fault) :
    plan context sources previous = .error (.unableToList .ingresses fault) := by
  rw [plan, declared, h]
  rfl

theorem plan_of_nodes (hl : sources.ingresses.list = .ok ingresses)
    (h : Node.listInstances sources.nodes = .error fault) :
    plan context sources previous = .error (.unableToList .nodes fault) := by
  rw [plan, declared, hl]
  dsimp only
  rw [h]
  rfl

/-- Whatever is listed, and whatever the services are, there is a plan. -/
theorem plan_of_listed (hl : sources.ingresses.list = .ok ingresses)
    (h : Node.listInstances sources.nodes = .ok instances) :
    plan context sources previous =
      .ok (declaredBy context sources.services previous ingresses instances ++
        orphans previous (declaredBy context sources.services previous ingresses instances)) := by
  rw [plan, declared, hl]
  dsimp only
  rw [h]
  rfl

/-- Planning fails exactly if the ingresses or the nodes cannot be listed. -/
theorem plan_eq_error_iff : (∃ fault, plan context sources previous = .error fault) ↔
    (∃ fault, sources.ingresses.list = .error fault) ∨
      ∃ fault, Node.listInstances sources.nodes = .error fault := by
  cases hl : sources.ingresses.list with
  | error fault => simp [plan_of_ingresses context previous hl]
  | ok ingresses =>
    cases hn : Node.listInstances sources.nodes with
    | error fault => simp [plan_of_nodes context previous hl hn]
    | ok instances => simp [plan_of_listed context previous hl hn]

theorem map_owner_declaredBy (context : Context) (services : Source) (previous : ResourceSet)
    (ingresses instances : List Document) :
    (declaredBy context services previous ingresses instances).map Resource.owner =
      (identities context ingresses).map Owner.ingress := by
  rw [declaredBy, identities, ← map_fst_owned, List.map_map, List.map_map]
  exact List.map_congr_left fun entry _ => owner_resourceOf entry.1 entry.2

end Listing

section Plan

variable {context : Context} {sources : Sources} {now : Moment} {previous planned : ResourceSet}
  {r : Resource} {x : Resource × Option Event}

/-- A resource that a plan does not taint wants a load balancer or has one. -/
theorem hasWork_of_mem_plan (hplan : plan context sources previous = .ok planned)
    (hr : r ∈ planned) (ht : r.tainted = false) : r.desired.isSome ∨ r.handle.isSome := by
  rcases mem_plan_cases hplan hr with ⟨htainted, -⟩ | ⟨-, spec, hd⟩ | ⟨p, -, -, -, hh, rfl⟩
  · rw [ht] at htainted
    cases htainted
  · exact Or.inl (by simp [hd])
  · exact Or.inr hh

theorem stands_of_endsAs {e : Ending} (ht : r.tainted = false)
    (hwork : r.desired.isSome ∨ r.handle.isSome) (he : EndsAs r e) :
    Stands (conclude now r e).1 := by
  cases he with
  | created wanted _ h => exact .settled ht (Or.inl rfl) rfl (by simp [conclude, wanted]) rfl
  | updated wanted _ reached h =>
    exact .settled ht (Or.inr reached) rfl (by simp [conclude, wanted]) rfl
  | deleted unwanted _ => exact .deleted ht rfl rfl unwanted rfl
  | idle unwanted absent => simp [unwanted, absent] at hwork
  | failed kept _ fault name => exact .failed ht rfl rfl (hwork.imp_right kept)

/-- Whatever its calls are answered, a resource of a plan comes to stand in one of these ways. -/
theorem stands_of_becomes (hplan : plan context sources previous = .ok planned)
    (hr : r ∈ planned) (hb : Becomes context now r x) : Stands x.1 := by
  cases hb with
  | untouched ht =>
    rcases mem_plan_cases hplan hr with ⟨-, hs, he, -⟩ | ⟨hn, -⟩ | ⟨p, -, -, -, -, rfl⟩
    · exact .tainted ht hs he
    · rw [ht] at hn
      cases hn
    · cases ht
  | concluded ht he =>
    exact stands_of_endsAs ht (hasWork_of_mem_plan hplan hr ht) (endsAs_of_yields he)

theorem stands_of_planBecomes {done : ResourceSet}
    (hplan : plan context sources previous = .ok planned)
    (hdone : PlanBecomes context now planned done) : ∀ r ∈ done, Stands r := by
  intro r hr
  obtain ⟨r', hr', event, hb⟩ := exists_left_of_forall₂ hdone hr
  exact stands_of_becomes hplan hr' hb

/-- What is declared is kept, whatever becomes of it. -/
theorem isKept_of_declared {id : Identity} {ingress : Document} {services : Source}
    {instances : List Document}
    (hb : Becomes context now (resourceOf services instances previous id ingress) x) :
    isKept x.1 = true := by
  have hwanted : (resourceOf services instances previous id ingress).tainted = true ∨
      (resourceOf services instances previous id ingress).desired.isSome := by
    unfold resourceOf
    split
    · exact Or.inr rfl
    · exact Or.inl rfl
  cases hb with
  | untouched ht => simp [isKept, ht]
  | @concluded ht e he =>
    rw [ht, Bool.false_eq_true, false_or] at hwanted
    unfold conclude
    split <;> simp [isKept, hwanted]

/-- What is left of a resource that is to be deleted is kept only if that failed. -/
theorem failed_of_kept {p : Resource} (hb : Becomes context now p.stripDesired x)
    (hh : p.handle.isSome) (hk : isKept x.1 = true) :
    x.1.status = .failed ∧ x.1.handle = p.handle := by
  cases hb with
  | untouched ht => cases ht
  | concluded ht he =>
    have hends := endsAs_of_yields he
    cases hends with
    | created wanted _ _ => cases wanted
    | updated wanted _ _ _ => cases wanted
    | deleted _ _ =>
      simp [isKept, conclude, Resource.stripDesired] at hk
    | idle _ absent =>
      rw [show p.stripDesired.handle = p.handle from rfl] at absent
      simp [absent] at hh
    | failed _ undeleted fault name => exact ⟨rfl, (undeleted rfl).1⟩

end Plan

structure CarriesThrough (engine : Engine) (sources : Sources) (now : Moment)
    (after : Engine) : Prop where
  context : after.context = engine.context
  syncCount : after.stats.syncCount = engine.stats.syncCount + 1
  failedSyncs : after.stats.failedSyncs = engine.stats.failedSyncs
  reconcileErrors : after.stats.reconcileErrors =
    engine.stats.reconcileErrors + failures after.resources
  managedResources : after.stats.managedResources = after.resources.length
  lastSync : after.stats.lastSync = some now
  /-- The entries are one for each declared identity, in the order of the listing, and behind them
  left-overs that could not be deleted. -/
  entries : ∀ {ingresses}, sources.ingresses.list = .ok ingresses → ∃ own left,
    after.resources = own ++ left ∧
    own.map Resource.owner = (identities engine.context ingresses).map Owner.ingress ∧
    ∀ r ∈ left, r.status = .failed ∧ ∃ p ∈ engine.resources,
      IsLeftOver (identities engine.context ingresses) p ∧ p.owner = r.owner ∧
      p.handle = r.handle
  stands : ∀ r ∈ after.resources, Stands r ∧ r.status ≠ .deleted

section Adopt

variable {engine : Engine} {sources : Sources} {now : Moment} {cloud : Cloud}
  {planned done : ResourceSet} {fault : Fault}

/-- A cycle that cannot plan changes nothing but its counters. -/
theorem sync_of_error (h : plan engine.context sources engine.resources = .error fault) :
    engine.sync sources now cloud =
      { outcome := .error fault, engine := engine.missed, cloud := cloud } := by
  rw [sync, h]
  rfl

theorem commit_engine (engine : Engine) (now : Moment) (cloud : Cloud) (planned : ResourceSet) :
    (engine.commit now cloud planned).engine =
      engine.adopt now (resourcesAfter engine.context now cloud planned) := by
  rw [adopt, resourcesAfter, List.countP_map]
  rfl

/-- A commit keeps every declared entry. -/
theorem filter_isKept_of_declared {previous own : ResourceSet} {services : Source}
    {ingresses instances : List Document}
    (h : PlanBecomes engine.context now
      (declaredBy engine.context services previous ingresses instances) own) :
    own.filter isKept = own := by
  refine List.filter_eq_self.mpr fun r hr => ?_
  obtain ⟨r', hr', event, hb⟩ := exists_left_of_forall₂ h hr
  obtain ⟨entry, -, rfl⟩ := List.mem_map.mp hr'
  exact isKept_of_declared hb

theorem entries_of_planBecomes (hplan : plan engine.context sources engine.resources = .ok planned)
    (hdone : PlanBecomes engine.context now planned done) {ingresses : List Document}
    (hl : sources.ingresses.list = .ok ingresses) :
    ∃ own left, done.filter isKept = own ++ left ∧
      own.map Resource.owner = (identities engine.context ingresses).map Owner.ingress ∧
      ∀ r ∈ left, r.status = .failed ∧ ∃ p ∈ engine.resources,
        IsLeftOver (identities engine.context ingresses) p ∧ p.owner = r.owner ∧
        p.handle = r.handle := by
  obtain ⟨ingresses', instances, hl', -, rfl⟩ := plan_cases hplan
  obtain rfl := Except.ok.inj (hl'.symm.trans hl)
  -- what became of the declared ones stands before what became of the left-overs
  obtain ⟨own, rest, rfl, hown, hrest⟩ := exists_append_of_forall₂ hdone
  refine ⟨own, rest.filter isKept, ?_, ?_, fun r hr => ?_⟩
  · rw [List.filter_append, filter_isKept_of_declared hown]
  · rw [PlanBecomes.owners hown, map_owner_declaredBy]
  · obtain ⟨hr, hk⟩ := List.mem_filter.mp hr
    obtain ⟨r', hr', event, hb⟩ := exists_left_of_forall₂ hrest hr
    rw [orphans_declaredBy] at hr'
    obtain ⟨p, hp, rfl⟩ := List.mem_map.mp hr'
    obtain ⟨hp, hleft⟩ := List.mem_filter.mp hp
    have hleft := of_decide_eq_true hleft
    obtain ⟨hs, hh⟩ := failed_of_kept hb hleft.2.1 hk
    exact ⟨hs, p, hp, hleft, hb.owner.symm, hh.symm⟩

/-- Whatever its calls are answered, a cycle that adopts what became of its plan is carried
through. -/
theorem carriesThrough_adopt (hplan : plan engine.context sources engine.resources = .ok planned)
    (hdone : PlanBecomes engine.context now planned done) :
    CarriesThrough engine sources now (engine.adopt now done) where
  context := rfl
  syncCount := rfl
  failedSyncs := rfl
  reconcileErrors :=
    congrArg (engine.stats.reconcileErrors + ·)
      (countP_isFailure (stands_of_planBecomes hplan hdone))
  managedResources := rfl
  lastSync := rfl
  entries := entries_of_planBecomes hplan hdone
  stands r hr := by
    obtain ⟨hr, hk⟩ := List.mem_filter.mp hr
    have hstands := stands_of_planBecomes hplan hdone r hr
    exact ⟨hstands, hstands.isKept_iff.mp hk⟩

/-- A cycle cannot be planned, or it is carried through. -/
theorem sync_cases_of_plan (engine : Engine) (sources : Sources) (now : Moment) (cloud : Cloud) :
    (∃ fault, engine.sync sources now cloud =
        { outcome := .error fault, engine := engine.missed, cloud := cloud }) ∨
      (engine.sync sources now cloud).outcome = .ok () ∧
        CarriesThrough engine sources now (engine.sync sources now cloud).engine := by
  cases hplan : plan engine.context sources engine.resources with
  | error fault => exact Or.inl ⟨fault, sync_of_error hplan⟩
  | ok planned =>
    rw [sync_of_plan hplan, commit_engine]
    exact Or.inr ⟨rfl, carriesThrough_adopt hplan (planBecomes_resourcesAfter _ _ _ _)⟩

end Adopt

end IngressControl.Engine
