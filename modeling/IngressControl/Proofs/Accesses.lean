import IngressControl.Proofs.Recorded
import IngressControl.Proofs.Texts
import Mathlib.Data.Finset.Basic

/-! What calls make of the load balancers of a service. Every call that succeeds has at most one
effect, on the load balancer of one name, and calls that fail have none, so after any calls the
service has what their effects make of it. -/

namespace IngressControl
open scoped List
open Document (Texts)

def Reply.telling {α β : Type} (f : α → β) (reply : Reply α) : Reply β := (reply.1.map f, reply.2)

namespace Cloud

inductive Effect
  | put (balancer : Handle) (targets : List Document)
  | change (arn : String) (attributes : Attributes)
  | drop (arn : String)
  | join (arn : String) (instances : List Document)
  | leave (arn : String) (instances : List Document)

inductive Access
  | add (handle : Handle) (instances : List Document)
  | create (name : String) (attributes : Attributes) (tags : List (String × Document))
  | update (handle : Handle) (attributes : Attributes)
  | delete (handle : Handle)
  | register (handle : Handle) (instances : List Document)
  | deregister (handle : Handle) (instances : List Document)
  | describe (arn : String)
  | list (cluster : String)

def Access.reply (cloud : Cloud) : Access → Reply (Option Effect)
  | add handle instances => (.ok (some (.put handle instances)), cloud.add handle instances)
  | create name attributes tags =>
    (cloud.create name attributes tags).telling fun made => some (.put made [])
  | update handle attributes =>
    (cloud.update handle attributes).telling fun _ => some (.change handle.arn attributes)
  | delete handle => (cloud.delete handle).telling fun _ => some (.drop handle.arn)
  | register handle instances =>
    (cloud.register handle instances).telling fun _ => some (.join handle.arn instances)
  | deregister handle instances =>
    (cloud.deregister handle instances).telling fun _ => some (.leave handle.arn instances)
  | describe arn => (cloud.describe (.string arn)).telling fun _ => none
  | list cluster => (cloud.list cluster).telling fun _ => none

def effectOf : Except Fault (Option Effect) → Option Effect
  | .ok effect => effect
  | .error _ => none

def run (cloud : Cloud) (accesses : List Access) : Cloud :=
  accesses.foldl (fun cloud access => (access.reply cloud).2) cloud

def effects (cloud : Cloud) : List Access → List Effect
  | [] => []
  | access :: rest =>
    (effectOf (access.reply cloud).1).toList ++ effects (access.reply cloud).2 rest

structure Inventory where
  order : List String := []
  record : String → Option Handle := fun _ => none
  targets : String → Option (Finset Document) := fun _ => none

def Inventory.tagged (inventory : Inventory) (cluster : String) : List Handle :=
  (inventory.order.filterMap inventory.record).filter fun b =>
    Ledger.get? clusterTag b.tags = some (.string cluster)

def inventory (cloud : Cloud) : Inventory where
  order := Ledger.keys cloud.balancers
  record arn := Ledger.get? arn cloud.balancers
  targets arn := (Ledger.get? arn cloud.targets).map List.toFinset

namespace Effect

def arn : Effect → String
  | put balancer _ => balancer.arn
  | change arn _ => arn
  | drop arn => arn
  | join arn _ => arn
  | leave arn _ => arn

def onOrder (order : List String) : Effect → List String
  | put balancer _ => if balancer.arn ∈ order then order else order ++ [balancer.arn]
  | drop arn => order.filter fun other => !decide (other = arn)
  | _ => order

def onRecord (record : Option Handle) : Effect → Option Handle
  | put balancer _ => some balancer
  | change _ attributes => record.map attributes.change
  | drop _ => none
  | _ => record

def onTargets (targets : Option (Finset Document)) : Effect → Option (Finset Document)
  | put _ instances => some instances.toFinset
  | change _ _ => targets
  | drop _ => none
  | join _ instances => targets.map fun set => set ∪ instances.toFinset
  | leave _ instances => targets.map fun set => set \ instances.toFinset

def onInventory (inventory : Inventory) (effect : Effect) : Inventory where
  order := effect.onOrder inventory.order
  record := Function.update inventory.record effect.arn
    (effect.onRecord (inventory.record effect.arn))
  targets := Function.update inventory.targets effect.arn
    (effect.onTargets (inventory.targets effect.arn))

def onBalancers (balancers : List (String × Handle)) : Effect → List (String × Handle)
  | put balancer _ => Ledger.put balancer.arn balancer balancers
  | change arn attributes => match Ledger.get? arn balancers with
    | some balancer => Ledger.put arn (attributes.change balancer) balancers
    | none => balancers
  | drop arn => Ledger.erase arn balancers
  | _ => balancers

def onLedger (ledger : List (String × List Document)) :
    Effect → List (String × List Document)
  | put balancer instances => Ledger.put balancer.arn instances ledger
  | change _ _ => ledger
  | drop arn => Ledger.erase arn ledger
  | join arn instances =>
    Ledger.put arn (Cloud.join ((Ledger.get? arn ledger).getD []) instances) ledger
  | leave arn instances =>
    Ledger.put arn (Cloud.leave ((Ledger.get? arn ledger).getD []) instances) ledger

end Effect

structure Follows (cloud : Cloud) (reply : Reply (Option Effect)) : Prop where
  balancers : reply.2.balancers =
    (effectOf reply.1).elim cloud.balancers (Effect.onBalancers cloud.balancers)
  targets : reply.2.targets = (effectOf reply.1).elim cloud.targets (Effect.onLedger cloud.targets)
  listing : reply.2.listing = cloud.listing
  calm : cloud.Calm → reply.2.Calm

section Replies

variable {cloud : Cloud}

/-- What leaves the store alone has no effect. -/
theorem follows_of_store {reply : Reply (Option Effect)} (hn : effectOf reply.1 = none)
    (hs : reply.2.store = cloud.store) (hc : cloud.Calm → reply.2.Calm) : Follows cloud reply := by
  have hl := congrArg Cloud.listing hs
  refine ⟨?_, ?_, hl, hc⟩
  · rw [hn]
    exact balancers_of_store hs
  · rw [hn]
    exact targets_of_store hs

/-- What changes the store has the effect that it tells of. -/
theorem follows_of_effect {reply : Reply (Option Effect)} {effect : Effect} {stored : Cloud}
    (he : effectOf reply.1 = some effect) (hs : reply.2.store = stored)
    (hb : stored.balancers = effect.onBalancers cloud.balancers)
    (ht : stored.targets = effect.onLedger cloud.targets) (hl : stored.listing = cloud.listing)
    (hc : cloud.Calm → reply.2.Calm) : Follows cloud reply := by
  subst hs
  refine ⟨?_, ?_, hl, hc⟩
  · rw [he]
    exact hb
  · rw [he]
    exact ht

/-- A call that changes targets follows the effect that puts the change into the ledger. -/
theorem follows_changesTargets {call : Cloud → Handle → List Document → Reply Unit}
    {change : List Document → List Document → List Document}
    (h : ChangesTargets call change) {effect : Effect} {handle : Handle}
    {instances : List Document} (hb : cloud.balancers = effect.onBalancers cloud.balancers)
    (ht : Ledger.put handle.arn (change ((Ledger.get? handle.arn cloud.targets).getD []) instances)
      cloud.targets = effect.onLedger cloud.targets) :
    Follows cloud ((call cloud handle instances).telling fun _ => some effect) := by
  cases hr : call cloud handle instances with
  | mk outcome cloud' =>
    rcases h.cases hr with ⟨-, ⟨fault, rfl⟩, hs, hc⟩ | ⟨rfl, hs, hc⟩
    · exact follows_of_store rfl hs hc
    · exact follows_of_effect rfl hs hb ht rfl hc

/-- Reading changes nothing. -/
theorem follows_perform {α : Type} (operation : Operation) (target : Document)
    (answer : Cloud → Except Fault α) :
    Follows cloud ((cloud.perform operation target fun cloud => (answer cloud, cloud)).telling
      fun _ => none) := by
  have hnone (outcome : Except Fault α) : effectOf (outcome.map fun _ => none) = none := by
    cases outcome <;> rfl
  cases hr : cloud.perform operation target fun cloud => (answer cloud, cloud) with
  | mk outcome cloud' =>
    rcases perform_cases hr with ⟨hn, -, hs⟩ | ⟨c, hs, hc, ha⟩
    · exact follows_of_store (hnone _) hs fun hcalm => absurd hcalm hn
    · obtain ⟨-, rfl⟩ := Prod.mk.inj ha
      exact follows_of_store (hnone _) hs hc

/-- Every access changes the service by its effect, or not at all. -/
theorem follows_reply (cloud : Cloud) (access : Access) : Follows cloud (access.reply cloud) := by
  cases access with
  | add handle instances => exact follows_of_effect rfl rfl rfl rfl rfl id
  | create name attributes tags =>
    rw [Access.reply]
    cases hr : cloud.create name attributes tags with
    | mk outcome cloud' =>
      rcases create_cases hr with ⟨hn, ⟨fault, rfl⟩, hs⟩ | ⟨rfl, hs, hc⟩
      · exact follows_of_store rfl hs fun hcalm => absurd hcalm hn
      · exact follows_of_effect rfl hs rfl rfl rfl hc
  | update handle attributes =>
    rw [Access.reply]
    cases hr : cloud.update handle attributes with
    | mk outcome cloud' =>
      rcases update_cases hr with ⟨-, ⟨fault, rfl⟩, hs, hc⟩ | ⟨balancer, hg, rfl, hs, hc⟩
      · exact follows_of_store rfl hs hc
      · refine follows_of_effect rfl hs ?_ rfl rfl hc
        rw [Effect.onBalancers, hg]
        rfl
  | delete handle =>
    rw [Access.reply]
    cases hr : cloud.delete handle with
    | mk outcome cloud' =>
      rcases delete_cases hr with ⟨hn, ⟨fault, rfl⟩, hs⟩ | ⟨rfl, hs, hc⟩
      · exact follows_of_store rfl hs fun hcalm => absurd hcalm hn
      · exact follows_of_effect rfl hs rfl rfl rfl hc
  | register handle instances => exact follows_changesTargets register_changesTargets rfl rfl
  | deregister handle instances => exact follows_changesTargets deregister_changesTargets rfl rfl
  | describe arn => exact follows_perform .describe (.string arn) fun cloud => cloud.targetsOf _
  | list cluster =>
    exact follows_perform .list (.string cluster) fun cloud =>
      .ok (cloud.listing.getD ((cloud.ofCluster cluster).map description))

end Replies

structure IsSet (ds : List Document) : Prop where
  texts : Texts ds
  nodup : ds.Nodup

theorem IsSet.nil : IsSet [] := ⟨Texts.nil, List.nodup_nil⟩

theorem IsSet.join {targets instances : List Document} (h : IsSet targets)
    (hi : Texts instances) : IsSet (Cloud.join targets instances) where
  texts := (h.texts.append hi).mono fun _ hd => List.mem_append.mpr (mem_of_mem_join hd)
  nodup := nodup_join h.nodup instances

theorem IsSet.leave {targets : List Document} (h : IsSet targets) (instances : List Document) :
    IsSet (Cloud.leave targets instances) where
  texts := h.texts.mono fun _ hd => (List.mem_filter.mp hd).1
  nodup := h.nodup.sublist List.filter_sublist

/-- Joining is the union of sets. -/
theorem toFinset_join {targets instances : List Document} (hi : Texts instances) :
    (Cloud.join targets instances).toFinset = targets.toFinset ∪ instances.toFinset := by
  ext d
  simp only [List.mem_toFinset, Finset.mem_union, mem_join hi]

/-- Leaving is the difference of sets. -/
theorem toFinset_leave {targets : List Document} (ht : Texts targets)
    (instances : List Document) :
    (Cloud.leave targets instances).toFinset = targets.toFinset \ instances.toFinset := by
  ext d
  simp only [List.mem_toFinset, Finset.mem_sdiff, mem_leave ht]

/-- A service in order whose targets are sets, one for each load balancer. -/
structure Tidy (cloud : Cloud) : Prop extends Sound cloud where
  aligned : Ledger.keys cloud.targets = Ledger.keys cloud.balancers
  sets : ∀ arn targets, Ledger.get? arn cloud.targets = some targets → IsSet targets

/-- What is put into a service is a load balancer with a set of targets, and what changes targets is
on a load balancer that is there. -/
def Effect.Fits (cloud : Cloud) : Effect → Prop
  | put balancer targets => IsSet targets ∧ (Ledger.keys balancer.tags).Nodup
  | change _ _ => True
  | drop _ => True
  | join arn instances => Texts instances ∧ arn ∈ Ledger.keys cloud.balancers
  | leave arn _ => arn ∈ Ledger.keys cloud.balancers

section Effects

variable {cloud cloud' : Cloud} {effect : Effect}

theorem Sound.of_balancers (h : cloud.Sound) (hb : cloud'.balancers = cloud.balancers)
    (hl : cloud'.listing = cloud.listing) : cloud'.Sound where
  keys := hb ▸ h.keys
  arn hg := h.arn (hb ▸ hg)
  tags hg := h.tags (hb ▸ hg)
  listing := hl.trans h.listing

/-- A load balancer that is there has targets. -/
theorem Tidy.exists_targets (h : cloud.Tidy) {arn : String}
    (hm : arn ∈ Ledger.keys cloud.balancers) :
    ∃ targets, Ledger.get? arn cloud.targets = some targets ∧ IsSet targets := by
  cases hg : Ledger.get? arn cloud.targets with
  | none => exact absurd (h.aligned ▸ hm) (Ledger.get?_eq_none_iff.mp hg)
  | some targets => exact ⟨targets, rfl, h.sets arn targets hg⟩

/-- An effect changes the order of the load balancers as it says. -/
@[simp] theorem keys_onBalancers (effect : Effect) (balancers : List (String × Handle)) :
    Ledger.keys (effect.onBalancers balancers) = effect.onOrder (Ledger.keys balancers) := by
  cases effect with
  | put balancer targets => exact Ledger.keys_put _ _ _
  | change arn attributes =>
    rw [Effect.onBalancers]
    cases hg : Ledger.get? arn balancers with
    | none => rfl
    | some balancer =>
      exact (Ledger.keys_put _ _ _).trans (if_pos (Ledger.mem_keys_of_get? hg))
  | drop arn => exact Ledger.keys_erase arn balancers
  | join arn instances => rfl
  | leave arn instances => rfl

/-- An effect changes the record of its load balancer as it says. -/
@[simp] theorem get?_onBalancers (effect : Effect) (balancers : List (String × Handle)) :
    Ledger.get? effect.arn (effect.onBalancers balancers) =
      effect.onRecord (Ledger.get? effect.arn balancers) := by
  cases effect with
  | put balancer targets => simp [Effect.onBalancers, Effect.arn, Effect.onRecord]
  | change arn attributes =>
    cases hg : Ledger.get? arn balancers <;>
      simp [Effect.onBalancers, Effect.arn, Effect.onRecord, hg]
  | drop arn => simp [Effect.onBalancers, Effect.arn, Effect.onRecord]
  | join arn instances => rfl
  | leave arn instances => rfl

/-- An effect is on one load balancer only. -/
theorem get?_of_arn_ne {arn : String} (h : arn ≠ effect.arn) (balancers : List (String × Handle))
    (targets : List (String × List Document)) :
    Ledger.get? arn (effect.onBalancers balancers) = Ledger.get? arn balancers ∧
      Ledger.get? arn (effect.onLedger targets) = Ledger.get? arn targets := by
  cases effect with
  | put balancer instances => exact ⟨Ledger.get?_put_of_ne h _ _, Ledger.get?_put_of_ne h _ _⟩
  | change name attributes =>
    refine ⟨?_, rfl⟩
    rw [Effect.onBalancers]
    split
    · exact Ledger.get?_put_of_ne h _ _
    · rfl
  | drop name => exact ⟨Ledger.get?_erase_of_ne h _, Ledger.get?_erase_of_ne h _⟩
  | join name instances => exact ⟨rfl, Ledger.get?_put_of_ne h _ _⟩
  | leave name instances => exact ⟨rfl, Ledger.get?_put_of_ne h _ _⟩

/-- An effect changes the targets of its load balancer as it says. -/
theorem get?_onLedger (h : cloud.Tidy) (hf : effect.Fits cloud) :
    (Ledger.get? effect.arn (effect.onLedger cloud.targets)).map List.toFinset =
      effect.onTargets ((Ledger.get? effect.arn cloud.targets).map List.toFinset) := by
  cases effect with
  | put balancer instances => simp [Effect.onLedger, Effect.arn, Effect.onTargets]
  | change name attributes => rfl
  | drop name => simp [Effect.onLedger, Effect.arn, Effect.onTargets]
  | join name instances =>
    obtain ⟨targets, hg, -⟩ := h.exists_targets hf.2
    simp [Effect.onLedger, Effect.arn, Effect.onTargets, hg, toFinset_join hf.1]
  | leave name instances =>
    obtain ⟨targets, hg, hset⟩ := h.exists_targets hf
    simp [Effect.onLedger, Effect.arn, Effect.onTargets, hg, toFinset_leave hset.texts]

/-- The inventory after an effect is the effect on the inventory. -/
theorem inventory_effect (h : cloud.Tidy) (hf : effect.Fits cloud)
    (hb : cloud'.balancers = effect.onBalancers cloud.balancers)
    (ht : cloud'.targets = effect.onLedger cloud.targets) :
    cloud'.inventory = effect.onInventory cloud.inventory := by
  simp only [inventory, Effect.onInventory, hb, ht, Inventory.mk.injEq]
  refine ⟨keys_onBalancers effect cloud.balancers, ?_, ?_⟩
  · funext arn
    by_cases ha : arn = effect.arn
    · simp [ha]
    · rw [Function.update_of_ne ha, (get?_of_arn_ne ha _ cloud.targets).1]
  · funext arn
    by_cases ha : arn = effect.arn
    · rw [ha, Function.update_self, get?_onLedger h hf]
    · rw [Function.update_of_ne ha, (get?_of_arn_ne ha cloud.balancers _).2]

theorem Sound.after (h : cloud.Sound) (hf : effect.Fits cloud)
    (hb : cloud'.balancers = effect.onBalancers cloud.balancers)
    (hl : cloud'.listing = cloud.listing) : cloud'.Sound := by
  cases effect with
  | put balancer targets => exact h.put hf.2 hb hl
  | change arn attributes =>
    rw [Effect.onBalancers] at hb
    cases hg : Ledger.get? arn cloud.balancers with
    | none =>
      rw [hg] at hb
      exact h.of_balancers hb hl
    | some balancer =>
      rw [hg] at hb
      have ht : (Ledger.keys balancer.tags).Nodup := h.tags hg
      obtain rfl := h.arn hg
      exact h.put (b := attributes.change balancer) ht hb hl
  | drop arn =>
    have hdropped : (cloud.withoutBalancer arn).Sound := h.withoutBalancer
    exact hdropped.of_balancers hb hl
  | join arn instances => exact h.of_balancers hb hl
  | leave arn instances => exact h.of_balancers hb hl

theorem Tidy.after (h : cloud.Tidy) (hf : effect.Fits cloud)
    (hb : cloud'.balancers = effect.onBalancers cloud.balancers)
    (ht : cloud'.targets = effect.onLedger cloud.targets)
    (hl : cloud'.listing = cloud.listing) : cloud'.Tidy := by
  refine ⟨h.toSound.after hf hb hl, ?_, ?_⟩
  · -- targets are joined and left where there is a load balancer, so the keys are the same
    rw [hb, ht, keys_onBalancers, ← h.aligned]
    cases effect with
    | put balancer instances => exact Ledger.keys_put _ _ _
    | change arn attributes => rfl
    | drop arn => exact Ledger.keys_erase _ _
    | join arn instances => exact (Ledger.keys_put _ _ _).trans (if_pos (h.aligned ▸ hf.2))
    | leave arn instances => exact (Ledger.keys_put _ _ _).trans (if_pos (h.aligned ▸ hf))
  · rw [ht]
    cases effect with
    | put balancer instances => exact Ledger.forall_get?_put h.sets hf.1
    | change arn attributes => exact h.sets
    | drop arn => exact Ledger.forall_get?_erase h.sets
    | join arn instances =>
      obtain ⟨targets, hg, hset⟩ := h.exists_targets hf.2
      refine Ledger.forall_get?_put h.sets ?_
      rw [hg]
      exact hset.join hf.1
    | leave arn instances =>
      obtain ⟨targets, hg, hset⟩ := h.exists_targets hf
      refine Ledger.forall_get?_put h.sets ?_
      rw [hg]
      exact hset.leave instances

end Effects

/-- What accesses have to be like: instances are texts and stand once where they are added, no tag
occurs twice, and targets are changed of load balancers that are there. -/
def Access.Fits (cloud : Cloud) : Access → Prop
  | add handle instances => IsSet instances ∧ (Ledger.keys handle.tags).Nodup
  | create _ _ tags => (Ledger.keys tags).Nodup
  | register handle instances => Texts instances ∧ handle.arn ∈ Ledger.keys cloud.balancers
  | deregister handle _ => handle.arn ∈ Ledger.keys cloud.balancers
  | _ => True

def Fit (cloud : Cloud) : List Access → Prop
  | [] => True
  | access :: rest => access.Fits cloud ∧ Fit (access.reply cloud).2 rest

section Runs

variable {cloud : Cloud}

theorem effectOf_map {α : Type} {outcome : Except Fault α} {f : α → Option Effect}
    {effect : Effect} (h : effectOf (outcome.map f) = some effect) :
    ∃ a, outcome = .ok a ∧ f a = some effect := by
  cases outcome with
  | error fault => cases h
  | ok a => exact ⟨a, rfl, h⟩

/-- The effect of a fitting access fits the service. -/
theorem Access.Fits.effect {access : Access} (h : access.Fits cloud) {effect : Effect}
    (he : effectOf (access.reply cloud).1 = some effect) : effect.Fits cloud := by
  cases access with
  | add handle instances =>
    obtain rfl := Option.some.inj he
    exact h
  | create name attributes tags =>
    obtain ⟨made, hmade, hput⟩ := effectOf_map he
    obtain rfl := Option.some.inj hput
    have hreply : cloud.create name attributes tags = (.ok made, _) := Prod.ext hmade rfl
    rcases create_cases hreply with ⟨-, ⟨fault, hfault⟩, -⟩ | ⟨hnew, -, -⟩
    · cases hfault
    · obtain rfl := Except.ok.inj hnew
      exact ⟨IsSet.nil, h⟩
  | update handle attributes =>
    obtain ⟨_, -, hchange⟩ := effectOf_map he
    obtain rfl := Option.some.inj hchange
    trivial
  | delete handle =>
    obtain ⟨_, -, hdrop⟩ := effectOf_map he
    obtain rfl := Option.some.inj hdrop
    trivial
  | register handle instances =>
    obtain ⟨_, -, hjoin⟩ := effectOf_map he
    obtain rfl := Option.some.inj hjoin
    exact h
  | deregister handle instances =>
    obtain ⟨_, -, hleave⟩ := effectOf_map he
    obtain rfl := Option.some.inj hleave
    exact h
  | describe arn =>
    obtain ⟨_, -, hnone⟩ := effectOf_map he
    cases hnone
  | list cluster =>
    obtain ⟨_, -, hnone⟩ := effectOf_map he
    cases hnone

/-- One access keeps a service in order, and changes the inventory by its effect. -/
theorem Tidy.reply (h : cloud.Tidy) {access : Access} (hf : access.Fits cloud) :
    (access.reply cloud).2.Tidy ∧ (access.reply cloud).2.inventory =
      (effectOf (access.reply cloud).1).toList.foldl Effect.onInventory cloud.inventory := by
  obtain ⟨hb, ht, hl, -⟩ := follows_reply cloud access
  cases he : effectOf (access.reply cloud).1 with
  | none =>
    rw [he] at hb ht
    have hsound := h.toSound.of_balancers hb hl
    refine ⟨⟨hsound, ?_, ?_⟩, ?_⟩
    · rw [hb, ht]
      exact h.aligned
    · rw [ht]
      exact h.sets
    · simp only [inventory, hb, ht]
      rfl
  | some effect =>
    rw [he] at hb ht
    have hfits := hf.effect he
    exact ⟨h.after hfits hb ht hl, inventory_effect h hfits hb ht⟩

/-- After any accesses the inventory is what their effects make of it. -/
theorem Tidy.run {accesses : List Access} (h : cloud.Tidy) (hf : Fit cloud accesses) :
    (cloud.run accesses).Tidy ∧ (cloud.run accesses).inventory =
      (cloud.effects accesses).foldl Effect.onInventory cloud.inventory := by
  induction accesses generalizing cloud with
  | nil => exact ⟨h, rfl⟩
  | cons access rest ih =>
    obtain ⟨hfits, hrest⟩ := hf
    obtain ⟨htidy, hone⟩ := h.reply hfits
    obtain ⟨hlast, hinventory⟩ := ih htidy hrest
    refine ⟨hlast, hinventory.trans ?_⟩
    rw [effects, List.foldl_append, hone]

/-- Accesses bring no outage. -/
theorem calm_run (accesses : List Access) (hc : cloud.Calm) : (cloud.run accesses).Calm := by
  induction accesses generalizing cloud with
  | nil => exact hc
  | cons access rest ih => exact ih ((follows_reply cloud access).calm hc)

end Runs

end Cloud

end IngressControl
