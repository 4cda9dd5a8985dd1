import IngressControl.Proofs.Runs
import Mathlib.Data.List.Pairwise

/-! What a cycle takes up and what it deletes. Its plan has the declared identities in the order in
which they first occur, and behind them what is left over from the previous set; each left-over is
deleted once, and no load balancer goes that is not under the name of a left-over. -/

namespace IngressControl

def ResourceSet.Unshared (set : ResourceSet) : Prop :=
  set.Pairwise fun a b => ∀ h h', a.handle = some h → b.handle = some h' → h.arn ≠ h'.arn

/-- Two entries of an unshared set have different load balancers. -/
theorem ResourceSet.Unshared.forall_ne {set : ResourceSet} (hu : set.Unshared) {a b : Resource}
    (ha : a ∈ set) (hb : b ∈ set) (hne : a ≠ b) :
    ∀ h h', a.handle = some h → b.handle = some h' → h.arn ≠ h'.arn := by
  have hsymm : Std.Symm fun a b : Resource =>
      ∀ h h', a.handle = some h → b.handle = some h' → h.arn ≠ h'.arn :=
    ⟨fun _ _ hab h h' hh hh' => (hab h' h hh' hh).symm⟩
  exact List.Pairwise.forall hu ha hb hne

namespace Cloud

def deletions (cloud : Cloud) : List Document :=
  (cloud.calls.filter fun call => decide (call.operation = .delete)).map Call.target

/-- A call is logged once, whether or not it succeeds. -/
theorem perform_calls {α : Type} (cloud : Cloud) (operation : Operation) (target : Document)
    {act : Cloud → Reply α} (hact : ∀ c, (act c).2.calls = c.calls) :
    (cloud.perform operation target act).2.calls = cloud.calls ++ [⟨operation, target⟩] := by
  simp only [perform]
  cases Outage.meet ⟨operation, target⟩ cloud.outages with
  | mk reason outages =>
    cases reason with
    | none => exact hact _
    | some reason => rfl

theorem create_calls (cloud : Cloud) (name : String) (attributes : Attributes)
    (tags : List (String × Document)) :
    (cloud.create name attributes tags).2.calls = cloud.calls ++ [⟨.create, .string name⟩] :=
  cloud.perform_calls .create (.string name) fun _ => rfl

theorem update_calls (cloud : Cloud) (h : Handle) (attributes : Attributes) :
    (cloud.update h attributes).2.calls = cloud.calls ++ [⟨.update, h.name⟩] := by
  refine cloud.perform_calls .update h.name fun c => ?_
  dsimp only
  split <;> rfl

theorem delete_calls (cloud : Cloud) (h : Handle) :
    (cloud.delete h).2.calls = cloud.calls ++ [⟨.delete, h.name⟩] :=
  cloud.perform_calls .delete h.name fun _ => rfl

theorem withinLimit_calls (cloud : Cloud) (instances : List Document) {act : Cloud → Reply Unit}
    (hact : ∀ c, (act c).2.calls = c.calls) :
    (cloud.withinLimit instances act).2.calls = cloud.calls := by
  unfold withinLimit
  split
  · rfl
  · rfl
  · exact hact cloud

theorem register_calls (cloud : Cloud) (h : Handle) (instances : List Document) :
    (cloud.register h instances).2.calls = cloud.calls ++ [⟨.register, h.name⟩] :=
  cloud.perform_calls .register h.name fun c => c.withinLimit_calls instances fun _ => rfl

theorem deregister_calls (cloud : Cloud) (h : Handle) (instances : List Document) :
    (cloud.deregister h instances).2.calls = cloud.calls ++ [⟨.deregister, h.name⟩] :=
  cloud.perform_calls .deregister h.name fun c => c.withinLimit_calls instances fun _ => rfl

/-- A call that is no deletion adds none to the log. -/
theorem deletions_of_calls {cloud cloud' : Cloud} {operation : Operation} {target : Document}
    (h : cloud'.calls = cloud.calls ++ [⟨operation, target⟩]) (hne : operation ≠ .delete) :
    cloud'.deletions = cloud.deletions := by
  rw [deletions, h, List.filter_append, List.filter_cons_of_neg (by simpa using hne),
    List.filter_nil, List.append_nil, deletions]

/-- A deletion is logged, whether or not it succeeds. -/
theorem deletions_delete (cloud : Cloud) (h : Handle) :
    (cloud.delete h).2.deletions = cloud.deletions ++ [h.name] := by
  rw [deletions, delete_calls, List.filter_append, List.map_append]
  rfl

end Cloud

namespace Engine

section Calls

variable {context : Context} {cloud : Cloud} {h : Handle}

theorem deletions_callBatches {call : Cloud → Handle → List Document → Reply Unit}
    {change : List Document → List Document → List Document}
    (hcall : ∀ cloud h batch, (call cloud h batch).2.deletions = cloud.deletions)
    (cloud : Cloud) (h : Handle) (batches : List (List Document)) :
    (callBatches call change cloud h batches).cloud.deletions = cloud.deletions := by
  induction batches generalizing cloud h with
  | nil => rfl
  | cons batch rest ih =>
    have hfirst := hcall cloud h batch
    simp only [callBatches]
    cases hc : call cloud h batch with
    | mk outcome cloud' =>
      rw [hc] at hfirst
      cases outcome with
      | error fault => exact hfirst
      | ok =>
        dsimp only
        split
        · exact hfirst
        · exact (ih cloud' _).trans hfirst

theorem deletions_callInBatches {call : Cloud → Handle → List Document → Reply Unit}
    {change : List Document → List Document → List Document}
    (hcall : ∀ cloud h batch, (call cloud h batch).2.deletions = cloud.deletions) (limit : Int)
    (cloud : Cloud) (h : Handle) (instances : List Document) :
    (callInBatches call change limit cloud h instances).cloud.deletions = cloud.deletions := by
  unfold callInBatches
  split
  · rfl
  · exact deletions_callBatches hcall cloud h _

/-- Aligning targets deletes nothing. -/
theorem deletions_alignTargets (limit : Int) (cloud : Cloud) (h : Handle)
    (wanted : List Document) :
    (alignTargets limit cloud h wanted).cloud.deletions = cloud.deletions := by
  have hregister (cloud : Cloud) (h : Handle) (batch : List Document) :
      (cloud.register h batch).2.deletions = cloud.deletions :=
    Cloud.deletions_of_calls (cloud.register_calls h batch) (by decide)
  have hderegister (cloud : Cloud) (h : Handle) (batch : List Document) :
      (cloud.deregister h batch).2.deletions = cloud.deletions :=
    Cloud.deletions_of_calls (cloud.deregister_calls h batch) (by decide)
  unfold alignTargets
  split
  · rfl
  · split
    · rfl
    · rename_i a _ _
      have hadded : (callInBatches Cloud.register (fun is batch => is ++ batch) limit cloud h
          a.toAdd).cloud.deletions = cloud.deletions :=
        deletions_callInBatches hregister limit cloud h a.toAdd
      dsimp only
      split
      · exact hadded
      · exact (deletions_callInBatches hderegister limit _ _ a.toRemove).trans hadded

/-- A creation deletes nothing. -/
theorem deletions_applyCreate (owner : Owner) (spec : DesiredSpec) :
    (applyCreate context cloud owner spec).cloud.deletions = cloud.deletions := by
  have hcreate := Cloud.deletions_of_calls (cloud.create_calls
    (nameOfKey context.clusterName owner.key) (attributes spec) (tags context owner)) (by decide)
  unfold applyCreate
  cases hc : cloud.create (nameOfKey context.clusterName owner.key) (attributes spec)
      (tags context owner) with
  | mk outcome cloud' =>
    rw [hc] at hcreate
    simp only [hc]
    cases outcome with
    | error fault => exact hcreate
    | ok handle => exact (deletions_alignTargets _ _ _ _).trans hcreate

/-- An update deletes nothing. -/
theorem deletions_applyUpdate (spec : DesiredSpec) :
    (applyUpdate context cloud h spec).cloud.deletions = cloud.deletions := by
  have hattributes : (applyAttributes cloud h spec).2.deletions = cloud.deletions := by
    have hupdate := Cloud.deletions_of_calls (cloud.update_calls h (attributes spec)) (by decide)
    unfold applyAttributes
    split
    · rfl
    · rfl
    · cases hc : cloud.update h (attributes spec) with
      | mk outcome cloud' =>
        rw [hc] at hupdate
        cases outcome <;> exact hupdate
  unfold applyUpdate
  cases ha : applyAttributes cloud h spec with
  | mk outcome cloud' =>
    rw [ha] at hattributes
    cases outcome with
    | error fault => exact hattributes
    | ok result => exact (deletions_alignTargets _ _ _ _).trans hattributes

def toDelete (r : Resource) : List Document :=
  if r.tainted || r.desired.isSome then [] else (r.handle.map Handle.name).toList

/-- Reconciling a resource attempts a deletion only if there is a load balancer and nothing wants
it. -/
@[simp] theorem deletions_reconcile (context : Context) (now : Moment) (cloud : Cloud)
    (r : Resource) :
    (reconcile context now cloud r).cloud.deletions = cloud.deletions ++ toDelete r := by
  cases ht : r.tainted with
  | true => simp [toDelete, ht]
  | false =>
    rw [(reconcile_of_untainted context now cloud ht).1, apply, toDelete, ht]
    -- creating and updating make no deletion; what nothing wants is deleted if there is a handle
    cases hd : r.desired with
    | some spec =>
      cases hh : r.handle with
      | none => simpa using deletions_applyCreate r.owner spec
      | some h => simpa using deletions_applyUpdate spec
    | none =>
      cases hh : r.handle with
      | none => simp
      | some h =>
        have hdelete : (applyDelete cloud h).cloud = (cloud.delete h).2 := by
          unfold applyDelete
          split <;> simp [*]
        simpa [hdelete] using cloud.deletions_delete h

/-- A commit tries to delete exactly what its set says, in the order of the set. -/
@[simp] theorem deletions_cloudAfter (context : Context) (now : Moment) (cloud : Cloud)
    (planned : ResourceSet) :
    (cloudAfter context now cloud planned).deletions =
      cloud.deletions ++ planned.flatMap toDelete := by
  induction planned generalizing cloud with
  | nil => exact (List.append_nil _).symm
  | cons r rest ih =>
    simp [ih, deletions_reconcile]

end Calls

section Names

variable {context : Context} {now : Moment} {cloud : Cloud} {r : Resource} {arn : String}

/-- A move takes away no name but that of a handle which nothing wants. -/
theorem Move.mem_keys {a b : Stage} (hm : Move context r a b)
    (ha : arn ∈ Ledger.keys a.cloud.balancers) :
    arn ∈ Ledger.keys b.cloud.balancers ∨
      r.desired = none ∧ ∃ h, a.handle = some h ∧ h.arn = arn := by
  cases hm with
  | refused hs => exact Or.inl (Cloud.balancers_of_store hs ▸ ha)
  | create spec hd hs =>
    rw [Cloud.balancers_of_effect hs]
    exact Or.inl (Ledger.mem_keys_put.mpr (Or.inr ha))
  | update spec hd hb hs =>
    rw [Cloud.balancers_of_effect hs]
    exact Or.inl (Ledger.mem_keys_put.mpr (Or.inr ha))
  | @delete cloud cloud' h hd hs =>
    rw [Cloud.balancers_of_effect hs]
    by_cases he : h.arn = arn
    · exact Or.inr ⟨hd, h, rfl, he⟩
    · exact Or.inl (Ledger.mem_keys_erase.mpr ⟨Ne.symm he, ha⟩)
  | register spec batch hd hb hs => exact Or.inl (Cloud.balancers_of_effect hs ▸ ha)
  | deregister batch hs => exact Or.inl (Cloud.balancers_of_effect hs ▸ ha)

/-- The handle that is left of an unwanted entry is the one that it had. -/
theorem Move.handle_arn_of_unwanted {a b : Stage} (hm : Move context r a b)
    (hd : r.desired = none) {h' : Handle} (hh : b.handle = some h') :
    ∃ h, a.handle = some h ∧ h.arn = h'.arn := by
  have hnot {spec : DesiredSpec} (hs : r.desired = some spec) : False := by
    rw [hd] at hs
    cases hs
  cases hm with
  | refused hs => exact ⟨h', hh, rfl⟩
  | create spec hs => exact (hnot hs).elim
  | update spec hs => exact (hnot hs).elim
  | delete => cases hh
  | register spec batch hs => exact (hnot hs).elim
  | deregister batch hs =>
    obtain rfl := Option.some.inj hh
    exact ⟨_, rfl, (follow_arn _ _).symm⟩

theorem Moves.mem_keys {a b : Stage} (hm : Moves context r a b)
    (ha : arn ∈ Ledger.keys a.cloud.balancers) :
    arn ∈ Ledger.keys b.cloud.balancers ∨
      r.desired = none ∧ ∃ h, a.handle = some h ∧ h.arn = arn := by
  -- the handle at work is the first one under another form, as long as nothing is wanted
  have hall : (arn ∈ Ledger.keys b.cloud.balancers ∨
      r.desired = none ∧ ∃ h, a.handle = some h ∧ h.arn = arn) ∧
        (r.desired = none → ∀ h', b.handle = some h' →
          ∃ h, a.handle = some h ∧ h.arn = h'.arn) := by
    induction hm with
    | refl => exact ⟨Or.inl ha, fun _ h' hh => ⟨h', hh, rfl⟩⟩
    | tail _ hmove ih =>
      obtain ⟨hkeys, hhandle⟩ := ih
      refine ⟨?_, fun hd h' hh => ?_⟩
      · rcases hkeys with hkeys | hgone
        · rcases hmove.mem_keys hkeys with hkept | ⟨hd, h, hh, he⟩
          · exact Or.inl hkept
          · obtain ⟨h₀, hh₀, he₀⟩ := hhandle hd h hh
            exact Or.inr ⟨hd, h₀, hh₀, he₀.trans he⟩
        · exact Or.inr hgone
      · obtain ⟨h, hh, he⟩ := hmove.handle_arn_of_unwanted hd hh
        obtain ⟨h₀, hh₀, he₀⟩ := hhandle hd h hh
        exact ⟨h₀, hh₀, he₀.trans he⟩
  exact hall.1

/-- No load balancer goes while a plan is reconciled, unless it is under the name of a handle that
nothing wants. -/
theorem mem_keys_cloudAfter {planned : ResourceSet} (ha : arn ∈ Ledger.keys cloud.balancers) :
    arn ∈ Ledger.keys (cloudAfter context now cloud planned).balancers ∨
      ∃ r ∈ planned, r.tainted = false ∧ r.desired = none ∧
        ∃ h, r.handle = some h ∧ h.arn = arn := by
  induction planned generalizing cloud with
  | nil => exact Or.inl ha
  | cons r rest ih =>
    have hfirst : arn ∈ Ledger.keys (reconcile context now cloud r).cloud.balancers ∨
        r.tainted = false ∧ r.desired = none ∧ ∃ h, r.handle = some h ∧ h.arn = arn := by
      cases ht : r.tainted with
      | true => exact Or.inl (by rwa [reconcile_of_tainted ht])
      | false =>
        rcases (reconcile_moves context now cloud r).mem_keys ha with hkept | hgone
        · exact Or.inl hkept
        · exact Or.inr ⟨rfl, hgone⟩
    rw [cloudAfter_cons]
    rcases hfirst with hkept | hgone
    · rcases ih hkept with hkept | ⟨r', hr', hgone⟩
      · exact Or.inl hkept
      · exact Or.inr ⟨r', List.mem_cons_of_mem _ hr', hgone⟩
    · exact Or.inr ⟨r, List.mem_cons_self, hgone⟩

end Names

section Plan

variable {context : Context} {services : Source} {ingresses instances : List Document}
  {previous : ResourceSet}

/-- The identities of the ingresses addressed to an engine, in the order in which they first
occur. -/
def identities (context : Context) (ingresses : List Document) : List Identity :=
  (ingresses.filterMap (owner? context)).eraseDups

/-- Whether a resource is left over: it is not tainted, it has a handle, and its owner is none of
some identities. -/
def IsLeftOver (ids : List Identity) (r : Resource) : Prop :=
  r.tainted = false ∧ r.handle.isSome ∧ r.owner ∉ ids.map Owner.ingress

instance (ids : List Identity) (r : Resource) : Decidable (IsLeftOver ids r) :=
  inferInstanceAs (Decidable (_ ∧ _ ∧ _))

/-- The declared entries are those of the listed identities in their order, each made from the first
ingress with its identity. -/
theorem declaredBy_forall₂ :
    List.Forall₂ (fun id r => ∃ ingress,
        ingresses.find? (fun i => owner? context i == some id) = some ingress ∧
        r = resourceOf services instances previous id ingress)
      (identities context ingresses)
      (declaredBy context services previous ingresses instances) := by
  rw [identities, ← map_fst_owned, declaredBy, List.forall₂_map_left_iff,
    List.forall₂_map_right_iff, List.forall₂_same]
  intro entry he
  exact ⟨entry.2, mem_owned.mp he, rfl⟩

/-- The orphans are the left-over entries of the previous set, without what was desired. -/
theorem orphans_declaredBy :
    orphans previous (declaredBy context services previous ingresses instances) =
      (previous.filter fun r => IsLeftOver (identities context ingresses) r).map
        Resource.stripDesired := by
  unfold orphans
  congr 1
  apply List.filter_congr
  intro r _
  rw [Bool.eq_iff_iff, isOrphan_iff, isSome_find?_declaredBy, decide_eq_true_iff, IsLeftOver,
    identities, map_fst_owned, List.mem_map]
  simp only [eq_comm (a := r.owner)]
  tauto

/-- No declared entry is to be deleted. -/
theorem toDelete_declaredBy :
    (declaredBy context services previous ingresses instances).flatMap toDelete = [] := by
  rw [List.flatMap_eq_nil_iff]
  intro r hr
  obtain ⟨entry, -, rfl⟩ := List.mem_map.mp hr
  unfold resourceOf
  split <;> rfl

end Plan

/-- What a cycle that commits makes of the set and of the load balancers that were there, with the
ingresses and the instances that it sees: the declared resources, and behind them what is left
over. -/
structure Diffed (engine : Engine) (sources : Sources) (now : Moment) (cloud : Cloud)
    (ingresses instances : List Document) (declared left : ResourceSet) : Prop where
  reconciled : engine.sync sources now cloud = engine.commit now cloud (declared ++ left)
  firsts : List.Forall₂ (fun id r => ∃ ingress,
      ingresses.find? (fun i => owner? engine.context i == some id) = some ingress ∧
      r = resourceOf sources.services instances engine.resources id ingress)
    (identities engine.context ingresses) declared
  leftOver : left = (engine.resources.filter fun r =>
    IsLeftOver (identities engine.context ingresses) r).map Resource.stripDesired
  deletions : (engine.sync sources now cloud).cloud.deletions =
    cloud.deletions ++ left.flatMap fun r => (r.handle.map Handle.name).toList
  gone : ∀ arn ∈ Ledger.keys cloud.balancers,
    arn ∉ Ledger.keys (engine.sync sources now cloud).cloud.balancers →
    ∃ r ∈ left, r.handle.map Handle.arn = some arn
  /-- So if handles are not shared, the load balancer of what is declared or was tainted stays. -/
  spared : engine.resources.Unshared →
    ∀ p ∈ engine.resources, Declared engine.context sources p.owner ∨ p.tainted = true →
    ∀ h, p.handle = some h → h.arn ∈ Ledger.keys cloud.balancers →
    h.arn ∈ Ledger.keys (engine.sync sources now cloud).cloud.balancers

/-- A cycle that commits reconciles exactly the declared identities in the order in which they first
occur and behind them the left-overs, and deletes exactly the left-overs. -/
theorem diffed_sync {engine : Engine} {sources : Sources} {now : Moment} {cloud : Cloud}
    (hok : (engine.sync sources now cloud).outcome = .ok ()) :
    ∃ ingresses instances declared left, sources.ingresses.list = .ok ingresses ∧
      Node.listInstances sources.nodes = .ok instances ∧
      Diffed engine sources now cloud ingresses instances declared left := by
  rcases sync_cases engine sources now cloud with ⟨hfail, -⟩ | ⟨planned, hplan, hsync⟩
  · exact absurd hok hfail
  · obtain ⟨ingresses, instances, hl, hn, rfl⟩ := plan_cases hplan
    rw [orphans_declaredBy] at hsync
    set left := (engine.resources.filter fun r =>
      IsLeftOver (identities engine.context ingresses) r).map Resource.stripDesired with hleft
    have hgone : ∀ arn ∈ Ledger.keys cloud.balancers,
        arn ∉ Ledger.keys (engine.sync sources now cloud).cloud.balancers →
        ∃ r ∈ left, r.handle.map Handle.arn = some arn := by
      intro arn hmem hnot
      rw [hsync, commit_cloud] at hnot
      obtain ⟨r, hr, ht, hd, h, hh, rfl⟩ := (mem_keys_cloudAfter hmem).resolve_left hnot
      refine ⟨r, ?_, by rw [hh]; rfl⟩
      refine (List.mem_append.mp hr).resolve_left fun hdecl => ?_
      have hnone := List.flatMap_eq_nil_iff.mp toDelete_declaredBy r hdecl
      simp [toDelete, ht, hd, hh] at hnone
    refine ⟨ingresses, instances, _, left, hl, hn, hsync, declaredBy_forall₂, rfl, ?_, hgone, ?_⟩
    · rw [hsync, commit_cloud, deletions_cloudAfter, List.flatMap_append, toDelete_declaredBy,
        List.nil_append]
      congr 1
      simp only [hleft, List.flatMap_map]
      rfl
    · intro hunshared p hp hspared h hh hmem
      by_contra hnot
      obtain ⟨r, hr, he⟩ := hgone _ hmem hnot
      obtain ⟨q, hq, rfl⟩ := List.mem_map.mp hr
      obtain ⟨hq, hleft⟩ := List.mem_filter.mp hq
      obtain ⟨ht, -, hn⟩ := of_decide_eq_true hleft
      obtain ⟨h', hh', he⟩ := Option.map_eq_some_iff.mp he
      -- a resource that is not left over is another one, and so is its load balancer
      have hne : p ≠ q := by
        rintro rfl
        rcases hspared with hdeclared | htainted
        · rw [declared_iff_of_list hl, map_fst_owned] at hdeclared
          obtain ⟨id, hid, ho⟩ := hdeclared
          exact hn (List.mem_map.mpr ⟨id, hid, ho.symm⟩)
        · rw [ht] at htainted
          cases htainted
      exact hunshared.forall_ne hp hq hne h h' hh hh' he.symm

end Engine

/-! Two resources that share a load balancer: one of a declared ingress, and one that is left
over. -/

namespace Shop

def shared : Handle where
  arn := "arn:web"
  name := .string "web"
  nodePorts := [.int 30080]
  instances := [.string "i-1"]

def sharing : Engine where
  context := start.engine.context
  resources := [{ owner := .ingress ⟨"default", "web"⟩, handle := some shared },
    { owner := .ingress ⟨"default", "old"⟩, handle := some shared }]

def sharingCloud : Cloud := Cloud.add {} shared [.string "i-1"]

/-- A cycle that commits, with one declared resource and one left-over. -/
theorem diffed_sharing :
    (sharing.sync (sources [ingress] [service]) default sharingCloud).outcome = .ok () ∧
      ∃ ingresses instances declared left,
        (sources [ingress] [service]).ingresses.list = .ok ingresses ∧
        Node.listInstances (sources [ingress] [service]).nodes = .ok instances ∧
        Engine.Diffed sharing (sources [ingress] [service]) default sharingCloud ingresses
          instances declared left := by
  have hok : (sharing.sync (sources [ingress] [service]) default sharingCloud).outcome =
      .ok () := by decide +kernel
  exact ⟨hok, Engine.diffed_sync hok⟩

/-- The load balancer of a declared ingress is deleted with the left-over that shares it. -/
theorem deleted_shared :
    sharing.resources.Distinct ∧
      (sharing.sync (sources [ingress] [service]) default sharingCloud).outcome = .ok () ∧
      ∃ p ∈ sharing.resources,
        Engine.Declared sharing.context (sources [ingress] [service]) p.owner ∧
        p.handle = some shared ∧ shared.arn ∈ Ledger.keys sharingCloud.balancers ∧
        shared.arn ∉ Ledger.keys
          (sharing.sync (sources [ingress] [service]) default sharingCloud).cloud.balancers := by
  refine ⟨by simp [ResourceSet.Distinct, sharing, Owner.same], by decide +kernel, _,
    List.mem_cons_self, ?_, rfl, by decide +kernel, by decide +kernel⟩
  exact ⟨[ingress], rfl, ingress, List.mem_cons_self, _, by decide +kernel, rfl⟩

end Shop

end IngressControl
