import IngressControl.Proofs.Unheard

/-! What a cycle tells. Each path of a reconciliation records its event at another point of its
calls. In the end every entry has been told of once, by how it stands then, and only one that was
already as wanted has not been told of. -/

namespace IngressControl

/-- A bus that keeps all events in the order in which they are published. -/
def Publisher.noting : Publisher (List Event) := fun e log => (.ok (), log ++ [e])

theorem Publisher.after_noting (events log : List Event) :
    noting.after events log = log ++ events := by
  induction events generalizing log with
  | nil => exact (List.append_nil log).symm
  | cons e rest ih =>
    change noting.after rest (log ++ [e]) = _
    rw [ih, List.append_assoc]
    rfl

def Resource.balancerName (r : Resource) : String :=
  ((r.handle.map Handle.name).getD (.string "")).display

namespace Engine

structure Change where
  before : Resource
  after : Resource

namespace Change

def error (now : Moment) (r : Resource) : Event :=
  Event.ofMoment now .warning (.string "ERROR") r.owner (.string (r.error.getD ""))

/-- What there is to tell of an entry that is not tainted, by the status that it ended with. -/
def told (now : Moment) (c : Change) : Option Event :=
  match c.after.status with
  | .created => some (Event.ofMoment now .normal (.string "CREATE") c.after.owner
      (.string (c.after.balancerName ++ " created")))
  | .modified => some (Event.ofMoment now .normal (.string "MODIFY") c.after.owner
      (.string (c.after.balancerName ++ " modified")))
  | .deleted => some (Event.ofMoment now .normal (.string "DELETE") c.after.owner
      (.string (c.before.balancerName ++ " deleted")))
  | .failed => some (error now c.after)
  | _ => none

def reports (now : Moment) (changes : List Change) : List Event :=
  (changes.filter fun c => !c.after.tainted).filterMap (told now)

@[simp] theorem reports_append (now : Moment) (changes changes' : List Change) :
    reports now (changes ++ changes') = reports now changes ++ reports now changes' := by
  rw [reports, List.filter_append, List.filterMap_append]
  rfl

def complaints (now : Moment) (changes : List Change) : List Event :=
  (changes.filter fun c => c.after.tainted).map fun c => error now c.after

@[simp] theorem complaints_append (now : Moment) (changes changes' : List Change) :
    complaints now (changes ++ changes') = complaints now changes ++ complaints now changes' := by
  rw [complaints, List.filter_append, List.map_append]
  rfl

theorem complaints_eq_nil {now : Moment} {changes : List Change}
    (h : ∀ c ∈ changes, c.after.tainted = false) : complaints now changes = [] := by
  rw [complaints, List.map_eq_nil_iff, List.filter_eq_nil_iff]
  exact fun c hc => by simp [h c hc]

end Change

def changes (context : Context) (now : Moment) : Cloud → ResourceSet → List Change
  | _, [] => []
  | cloud, r :: rest => ⟨r, (reconcile context now cloud r).resource⟩ ::
      changes context now (reconcile context now cloud r).cloud rest

section Changes

variable {context : Context} {now : Moment} {cloud : Cloud} {planned : ResourceSet}

@[simp] theorem map_before_changes (context : Context) (now : Moment) (cloud : Cloud)
    (planned : ResourceSet) : (changes context now cloud planned).map Change.before = planned := by
  induction planned generalizing cloud with
  | nil => rfl
  | cons r rest ih => rw [changes, List.map_cons, ih]

@[simp] theorem map_after_changes (context : Context) (now : Moment) (cloud : Cloud)
    (planned : ResourceSet) :
    (changes context now cloud planned).map Change.after =
      resourcesAfter context now cloud planned := by
  induction planned generalizing cloud with
  | nil => rfl
  | cons r rest ih => simp [changes, ih]

@[simp] theorem changes_append (cloud : Cloud) (set set' : ResourceSet) :
    changes context now cloud (set ++ set') =
      changes context now cloud set ++
        changes context now (cloudAfter context now cloud set) set' := by
  induction set generalizing cloud with
  | nil => rfl
  | cons r rest ih => rw [List.cons_append, changes, ih, changes, cloudAfter_cons]; rfl

/-- A change of a commit starts from a planned entry and ends in what that entry becomes. -/
theorem becomes_of_mem_changes {c : Change} (hc : c ∈ changes context now cloud planned) :
    c.before ∈ planned ∧ ∃ event, Becomes context now c.before (c.after, event) := by
  induction planned generalizing cloud with
  | nil => cases hc
  | cons r rest ih =>
    rw [changes] at hc
    rcases List.mem_cons.mp hc with rfl | hc
    · exact ⟨List.mem_cons_self, _, becomes_reconcile context now cloud r⟩
    · obtain ⟨hmem, hb⟩ := ih hc
      exact ⟨List.mem_cons_of_mem _ hmem, hb⟩

/-- Reconciliation taints no entry, and clears no taint. -/
theorem Becomes.tainted_eq {r : Resource} {x : Resource × Option Event}
    (h : Becomes context now r x) : x.1.tainted = r.tainted := by
  cases h with
  | untouched _ => rfl
  | concluded _ _ =>
    unfold conclude
    split <;> rfl

/-- What is recorded while a resource is reconciled is what there is to tell of it in the end. -/
theorem told_conclude {r : Resource} {e : Ending} (hwork : r.desired.isSome ∨ r.handle.isSome)
    (he : EndsAs r e) :
    (conclude now r e).2 = Change.told now ⟨r, (conclude now r e).1⟩ := by
  cases he with
  | created _ _ h => rfl
  | updated _ _ reached h => rcases reached with rfl | rfl <;> rfl
  | deleted _ held =>
    simp only [conclude, reachedEvent?, Change.told, Resource.balancerName, held]
    rfl
  | idle unwanted absent => simp [unwanted, absent] at hwork
  | failed _ _ fault name => rfl

/-- The event of a reconciliation is the report of its change. -/
theorem Becomes.event_eq {r : Resource} {x : Resource × Option Event}
    (h : Becomes context now r x)
    (hwork : r.tainted = false → r.desired.isSome ∨ r.handle.isSome) :
    x.2.toList = Change.reports now [⟨r, x.1⟩] := by
  cases h with
  | untouched ht => simp [Change.reports, ht]
  | @concluded ht e he =>
    have hkept : (conclude now r e).1.tainted = false :=
      (Becomes.tainted_eq (.concluded ht he)).trans ht
    rw [told_conclude (hwork ht) (endsAs_of_yields he)]
    simp [Change.reports, hkept, List.filterMap_eq_flatMap_toList]

/-- Reconciling a plan tells once of every resource that it does not leave ready. -/
theorem filterMap_event_reconcileAll (cloud : Cloud)
    (hwork : ∀ r ∈ planned, r.tainted = false → r.desired.isSome ∨ r.handle.isSome) :
    (reconcileAll context now cloud planned).filterMap Reconciled.event =
      Change.reports now (changes context now cloud planned) := by
  induction planned generalizing cloud with
  | nil => rfl
  | cons r rest ih =>
    have hfirst := (becomes_reconcile context now cloud r).event_eq (hwork r List.mem_cons_self)
    have hrest := ih (reconcile context now cloud r).cloud fun r hr =>
      hwork r (List.mem_cons_of_mem _ hr)
    rw [reconcileAll, changes, List.filterMap_eq_flatMap_toList, List.flatMap_cons,
      ← List.filterMap_eq_flatMap_toList, hrest, ← List.singleton_append, Change.reports_append]
    exact congrArg (· ++ _) hfirst

/-- What is told of a plan are the errors of its tainted entries. -/
theorem filterMap_taintEvent? (context : Context) (now : Moment) (cloud : Cloud)
    (planned : ResourceSet) :
    planned.filterMap (taintEvent? now) =
      Change.complaints now (changes context now cloud planned) := by
  induction planned generalizing cloud with
  | nil => rfl
  | cons r rest ih =>
    have hkept : (reconcile context now cloud r).resource.tainted = r.tainted :=
      (becomes_reconcile context now cloud r).tainted_eq
    cases ht : r.tainted with
    | true =>
      rw [List.filterMap_cons_some (by rw [taintEvent?, if_pos ht]), ih, changes,
        reconcile_of_tainted ht, Change.complaints, Change.complaints,
        List.filter_cons_of_pos (by exact ht)]
      rfl
    | false =>
      rw [ht] at hkept
      rw [List.filterMap_cons_none (by rw [taintEvent?, if_neg (by simp [ht])]), ih, changes,
        Change.complaints, Change.complaints, List.filter_cons_of_neg (by simp [hkept])]

theorem map_owner_changes (context : Context) (now : Moment) (cloud : Cloud)
    (planned : ResourceSet) :
    ((changes context now cloud planned).map fun c => c.after.owner) =
      planned.map Resource.owner := by
  rw [← owners_resourcesAfter context now cloud, ← map_after_changes, List.map_map]
  rfl

/-- After a commit every entry stands in one of the final states. -/
theorem stands_of_mem_changes {sources : Sources} {previous : ResourceSet}
    (hplan : plan context sources previous = .ok planned) :
    ∀ c ∈ changes context now cloud planned, Stands c.after := by
  intro c hc
  obtain ⟨hmem, event, hb⟩ := becomes_of_mem_changes hc
  exact stands_of_becomes hplan hmem hb

/-- No left-over is tainted. -/
theorem untainted_of_mem_changes {previous declared : ResourceSet} :
    ∀ c ∈ changes context now cloud (orphans previous declared), c.after.tainted = false := by
  intro c hc
  obtain ⟨hmem, event, hb⟩ := becomes_of_mem_changes hc
  obtain ⟨p, -, -, hp⟩ := mem_orphans.mp hmem
  rw [hb.tainted_eq, ← hp]
  rfl

end Changes

/-- What a cycle that commits tells: first of the tainted entries, all of which are declared, then
of the others. -/
structure Reported (engine : Engine) (sources : Sources) (now : Moment) (cloud : Cloud)
    (own left : List Change) : Prop where
  planned : plan engine.context sources engine.resources =
    .ok ((own ++ left).map Change.before)
  reconciled : own ++ left = changes engine.context now cloud ((own ++ left).map Change.before)
  committed : (engine.sync sources now cloud).engine.resources =
    ((own ++ left).map Change.after).filter isKept
  distinct : ResourceSet.Distinct ((own ++ left).map Change.after)
  /-- First come the declared identities, in the order of the listing, and then the left-overs. -/
  order : ∀ {ingresses}, sources.ingresses.list = .ok ingresses →
    (own.map fun c => c.after.owner) = (identities engine.context ingresses).map Owner.ingress ∧
    left.map Change.before = (engine.resources.filter fun r =>
      IsLeftOver (identities engine.context ingresses) r).map Resource.stripDesired
  untainted : ∀ c ∈ left, c.after.tainted = false
  stands : ∀ c ∈ own ++ left, Stands c.after
  silent : ∀ c ∈ own ++ left, c.after.tainted = false →
    (Change.told now c = none ↔ c.after.status = .ready)
  events : (engine.sync sources now cloud).events =
    Change.complaints now own ++ Change.reports now (own ++ left)
  /-- These are the events that a bus sees while the cycle is under way. -/
  published : ∀ log, (syncOn Publisher.noting now engine sources cloud log).2 =
    log ++ (engine.sync sources now cloud).events

section Sync

variable {engine : Engine} {sources : Sources} {now : Moment} {cloud : Cloud}

/-- A change goes untold exactly if the entry is ready. -/
theorem told_eq_none_iff {c : Change} (hs : Stands c.after) (ht : c.after.tainted = false) :
    Change.told now c = none ↔ c.after.status = .ready := by
  cases hs with
  | tainted htainted _ _ =>
    rw [ht] at htainted
    cases htainted
  | settled _ status _ _ _ => rcases status with h | h | h <;> simp [Change.told, h]
  | deleted _ status _ _ _ => simp [Change.told, status]
  | failed _ status _ _ => simp [Change.told, status]

/-- The events of a cycle come from its plan and from its reconciliations. -/
theorem commit_events {planned : ResourceSet} (now : Moment) (cloud : Cloud)
    (hplan : plan engine.context sources engine.resources = .ok planned) :
    (engine.commit now cloud planned).events =
      Change.complaints now (changes engine.context now cloud planned) ++
        Change.reports now (changes engine.context now cloud planned) := by
  rw [← filterMap_taintEvent?, ← filterMap_event_reconcileAll cloud fun r hr =>
    hasWork_of_mem_plan hplan hr]
  rfl

/-- A cycle that commits from a set of different owners tells once of each entry, wherever its calls
fail: of the tainted ones in the order of the listing, then of those that it reconciled in their
order, except of those that are ready. -/
theorem reported_sync (hd : engine.resources.Distinct)
    (hok : (engine.sync sources now cloud).outcome = .ok ()) :
    ∃ own left, Reported engine sources now cloud own left := by
  rcases sync_cases engine sources now cloud with ⟨hfail, -⟩ | ⟨planned, hplan, hsync⟩
  · exact absurd hok hfail
  · obtain ⟨ingresses, instances, hl, -, hplanned⟩ := plan_cases hplan
    set declared := declaredBy engine.context sources.services engine.resources ingresses instances
      with hdeclared
    set own := changes engine.context now cloud declared with hown
    set left := changes engine.context now (cloudAfter engine.context now cloud declared)
      (orphans engine.resources declared) with hleft
    have hall : own ++ left = changes engine.context now cloud planned := by
      rw [hplanned, changes_append]
    have huntainted : ∀ c ∈ left, c.after.tainted = false := untainted_of_mem_changes
    have hstands : ∀ c ∈ own ++ left, Stands c.after := hall ▸ stands_of_mem_changes hplan
    refine ⟨own, left, ?_, ?_, ?_, ?_, ?_, huntainted, hstands,
      fun c hc => told_eq_none_iff (hstands c hc), ?_, ?_⟩
    · simp [hall, hplan]
    · simp [hall]
    · simp [hall, hsync]
    · simpa [hall] using distinct_reconciled (distinct_plan hd hplan) _ _ _
    · intro ingresses' hl'
      obtain rfl := Except.ok.inj (hl.symm.trans hl')
      rw [hown, map_owner_changes, hdeclared, map_owner_declaredBy, hleft, map_before_changes,
        hdeclared, orphans_declaredBy]
      exact ⟨rfl, rfl⟩
    · rw [hsync, commit_events now cloud hplan, ← hall, Change.complaints_append,
        Change.complaints_eq_nil huntainted, List.append_nil]
    · intro log
      have hnoting : Publisher.noting = Publisher.noting.bestEffort := rfl
      rw [hnoting, syncOn_bestEffort, Publisher.after_noting]

end Sync

end Engine

namespace Shop

def unserved : Document :=
  .object [("metadata", .object [("name", .string "unserved")]),
    ("spec", .object [("backend",
      .object [("serviceName", .string "unserved"), ("servicePort", .int 80)])])]

def partlyServed : Sources := sources [ingress, unserved] [service]

/-- A cycle with an entry that is ready, one that is tainted and one that is deleted. -/
theorem reported_sharing :
    sharing.resources.Distinct ∧
      (sharing.sync partlyServed default sharingCloud).outcome = .ok () ∧
      ∃ own left, Engine.Reported sharing partlyServed default sharingCloud own left := by
  have hd : sharing.resources.Distinct := by
    simp [ResourceSet.Distinct, sharing, Owner.same]
  have hok : (sharing.sync partlyServed default sharingCloud).outcome = .ok () := by
    decide +kernel
  exact ⟨hd, hok, Engine.reported_sync hd hok⟩

/-- The ready one is not told of. -/
example :
    ((sharing.sync partlyServed default sharingCloud).events.map fun e =>
        (e.severity, e.reason, e.name)) =
      [(.warning, .string "ERROR", .string "unserved"),
        (.normal, .string "DELETE", .string "old")] := by
  decide +kernel

end Shop

end IngressControl
