import IngressControl.Proofs.Accesses
import IngressControl.Proofs.Described

/-! A service as a map from load balancers to sets of targets. Whatever is asked of it is answered
from the map that the effects of the calls before have left. -/

namespace IngressControl
open scoped List
open Document (Ascending Texts)

namespace Cloud

def Effect.Resets (arn : String) : Effect → Prop
  | put balancer _ => balancer.arn = arn
  | drop name => name = arn
  | _ => False

def Effect.onSet (arn : String) (set : Finset Document) : Effect → Finset Document
  | join name instances => if name = arn then set ∪ instances.toFinset else set
  | leave name instances => if name = arn then set \ instances.toFinset else set
  | _ => set

theorem Inventory.targets_onInventory {inventory : Inventory} {arn : String}
    {set : Finset Document} (h : inventory.targets arn = some set) {effect : Effect}
    (hr : ¬ effect.Resets arn) :
    (effect.onInventory inventory).targets arn = some (effect.onSet arn set) := by
  change Function.update inventory.targets effect.arn _ arn = _
  by_cases ha : arn = effect.arn
  · subst ha
    rw [Function.update_self, h]
    cases effect with
    | put balancer instances => exact absurd rfl hr
    | change name attributes => rfl
    | drop name => exact absurd rfl hr
    | join name instances => exact congrArg some (if_pos rfl).symm
    | leave name instances => exact congrArg some (if_pos rfl).symm
  · rw [Function.update_of_ne ha, h]
    cases effect with
    | put balancer instances => rfl
    | change name attributes => rfl
    | drop name => rfl
    | join name instances => exact congrArg some (if_neg (Ne.symm ha)).symm
    | leave name instances => exact congrArg some (if_neg (Ne.symm ha)).symm

/-- Effects change the targets of a load balancer one after the other while none resets them. -/
theorem Inventory.targets_foldl {inventory : Inventory} {arn : String} {set : Finset Document}
    (h : inventory.targets arn = some set) {effects : List Effect}
    (hr : ∀ effect ∈ effects, ¬ effect.Resets arn) :
    (effects.foldl Effect.onInventory inventory).targets arn =
      some (effects.foldl (Effect.onSet arn) set) := by
  induction effects generalizing inventory set with
  | nil => exact h
  | cons effect rest ih =>
    obtain ⟨hfirst, hrest⟩ := List.forall_mem_cons.mp hr
    exact ih (targets_onInventory h hfirst) hrest

/-- A reply is what it has to be, unless an outage is in its place. -/
def Answers {α : Type} (cloud : Cloud) (reply : Reply α) (answer : Except Fault α → Prop) : Prop :=
  (¬ cloud.Calm ∧ ∃ reason, reply.1 = .error (.outage reason)) ∨ answer reply.1

section Answering

variable {cloud : Cloud}

theorem answers_perform {α : Type} {operation : Operation} {target : Document}
    {act : Cloud → Reply α} {answer : Except Fault α → Prop}
    (h : ∀ c : Cloud, c.store = cloud.store → answer (act c).1) :
    Answers cloud (cloud.perform operation target act) answer := by
  rcases perform_cases (rfl : cloud.perform operation target act = (_, _)) with
    ⟨hn, hreason, -⟩ | ⟨c, hs, -, ha⟩
  · exact Or.inl ⟨hn, hreason⟩
  · refine Or.inr ?_
    have houtcome := congrArg Prod.fst ha
    exact houtcome ▸ h c hs

/-- Targets are described as a set, in order. -/
theorem Tidy.describe_some (h : cloud.Tidy) {arn : String} {set : Finset Document}
    (hset : cloud.inventory.targets arn = some set) :
    Answers cloud (cloud.describe (.string arn)) fun outcome =>
      ∃ targets, outcome = .ok targets ∧ Ascending targets ∧ targets.toFinset = set := by
  obtain ⟨targets, hg, rfl⟩ := Option.map_eq_some_iff.mp hset
  obtain ⟨htexts, hnodup⟩ := h.sets arn targets hg
  obtain ⟨sorted, hsort, hperm⟩ := htexts.exists_sort
  refine answers_perform fun c hc => ⟨sorted, ?_, htexts.ascending_of_sort hnodup hsort, ?_⟩
  · exact (targetsOf_of_some ((targets_of_store hc).symm ▸ hg)).trans hsort
  · exact List.toFinset_eq_of_perm _ _ hperm

theorem describe_none {arn : String} (hset : cloud.inventory.targets arn = none) :
    Answers cloud (cloud.describe (.string arn)) fun outcome =>
      outcome = .error (.loadBalancerMissing arn) := by
  have hg : Ledger.get? arn cloud.targets = none := Option.map_eq_none_iff.mp hset
  exact answers_perform fun c hc => targetsOf_of_none ((targets_of_store hc).symm ▸ hg)

theorem Tidy.ofCluster_eq (h : cloud.Tidy) (cluster : String) :
    cloud.ofCluster cluster = cloud.inventory.tagged cluster := by
  rw [ofCluster, Inventory.tagged, inventory, Ledger.filterMap_get?_keys h.keys]
  refine List.filter_congr fun b _ => ?_
  rw [belongsTo, Bool.eq_iff_iff, Document.same_string_iff, decide_eq_true_eq]
  cases Ledger.get? clusterTag b.tags with
  | none => simp
  | some tag => simp

/-- The load balancers of a cluster are listed as they stand in the inventory. -/
theorem Tidy.list (h : cloud.Tidy) (cluster : String) :
    Answers cloud (cloud.list cluster) fun outcome =>
      outcome = .ok ((cloud.inventory.tagged cluster).map description) := by
  refine answers_perform fun c hc => ?_
  have hlisting : c.listing = none := (congrArg Cloud.listing hc).trans h.listing
  have hcluster : c.ofCluster cluster = cloud.ofCluster cluster := by
    rw [ofCluster, balancers_of_store hc, ← ofCluster]
  rw [hlisting, hcluster, h.ofCluster_eq]
  rfl

/-- A description reads back as the load balancer. -/
theorem Tidy.resourceOf_description (h : cloud.Tidy) {arn : String} {b : Handle}
    (hb : Ledger.get? arn cloud.balancers = some b) (hns : (b.tag namespaceTag).isVoid = false)
    (hname : (b.tag ingressTag).isVoid = false) {instances : List Document}
    (hi : Texts instances) : ∃ sorted, Document.sort instances = .ok sorted ∧
      (description b).require "LoadBalancerArn" = .ok (.string b.arn) ∧
      Discovery.resourceOf (description b) (.string b.arn) instances =
        .ok (Discovery.found b sorted) := by
  obtain ⟨sorted, hsort, -⟩ := hi.exists_sort
  refine ⟨sorted, hsort, rfl, ?_⟩
  rw [Discovery.resourceOf_description (h.tags hb), hns, hname, hsort]
  rfl

/-- A tidy service has targets for a name exactly if it has a record for it. -/
theorem Tidy.inStep (h : cloud.Tidy) (arn : String) :
    cloud.inventory.targets arn = none ↔ cloud.inventory.record arn = none := by
  have hkeys : Ledger.get? arn cloud.targets = none ↔ Ledger.get? arn cloud.balancers = none := by
    rw [Ledger.get?_eq_none_iff, Ledger.get?_eq_none_iff, h.aligned]
  exact Option.map_eq_none_iff.trans hkeys

/-- What fails changes nothing. -/
theorem unchanged_of_error {access : Access} {fault : Fault} {cloud' : Cloud}
    (h : access.reply cloud = (.error fault, cloud')) :
    cloud'.balancers = cloud.balancers ∧ cloud'.targets = cloud.targets := by
  obtain ⟨hbalancers, htargets, -, -⟩ := follows_reply cloud access
  rw [h] at hbalancers htargets
  exact ⟨hbalancers, htargets⟩

/-- What succeeds changes nothing but at the name of its effect. -/
theorem get?_of_ok {access : Access} {effect? : Option Effect} {cloud' : Cloud}
    (h : access.reply cloud = (.ok effect?, cloud')) {arn : String}
    (hne : ∀ effect ∈ effect?, arn ≠ effect.arn) :
    Ledger.get? arn cloud'.balancers = Ledger.get? arn cloud.balancers ∧
      Ledger.get? arn cloud'.targets = Ledger.get? arn cloud.targets := by
  obtain ⟨hbalancers, htargets, -, -⟩ := follows_reply cloud access
  rw [h] at hbalancers htargets
  cases effect? with
  | none => exact ⟨congrArg _ hbalancers, congrArg _ htargets⟩
  | some effect =>
    rw [hbalancers, htargets]
    exact get?_of_arn_ne (hne effect rfl) _ _

/-- A load balancer that was changed is the one that was there but for the attributes. -/
theorem get?_of_update_ok {handle changed : Handle} {attributes : Attributes} {cloud' : Cloud}
    (h : cloud.update handle attributes = (.ok changed, cloud')) :
    ∃ b, Ledger.get? handle.arn cloud.balancers = some b ∧
      Ledger.get? handle.arn cloud'.balancers = some changed ∧ cloud'.targets = cloud.targets ∧
      changed = attributes.change b := by
  rcases update_cases h with ⟨-, ⟨fault, hfault⟩, -⟩ | ⟨b, hg, hchanged, hs, -⟩
  · cases hfault
  · obtain rfl := Except.ok.inj hchanged
    have htargets := congrArg Cloud.targets hs
    exact ⟨b, hg, by simp [balancers_of_effect hs], htargets, rfl⟩

end Answering

/-- A service without load balancers, which lists what it has. -/
structure Blank (cloud : Cloud) : Prop where
  balancers : cloud.balancers = []
  targets : cloud.targets = []
  listing : cloud.listing = none

theorem Blank.tidy {cloud : Cloud} (h : cloud.Blank) : cloud.Tidy := by
  refine ⟨⟨?_, ?_, ?_, h.listing⟩, ?_, ?_⟩
  · simp [h.balancers, Ledger.keys]
  · simp [h.balancers, Ledger.get?]
  · simp [h.balancers, Ledger.get?]
  · rw [h.balancers, h.targets]
    rfl
  · simp [h.targets, Ledger.get?]

theorem Blank.inventory_eq {cloud : Cloud} (h : cloud.Blank) : cloud.inventory = {} := by
  rw [inventory, h.balancers, h.targets]
  rfl

structure Keeps (start : Cloud) (accesses : List Access) (cloud : Cloud) : Prop where
  inventory : cloud.inventory = (start.effects accesses).foldl Effect.onInventory {}
  inStep : ∀ arn, cloud.inventory.targets arn = none ↔ cloud.inventory.record arn = none
  /-- Targets are what was registered and taken off since the load balancer came. -/
  since : ∀ before balancer instances after,
    start.effects accesses = before ++ .put balancer instances :: after →
    (∀ effect ∈ after, ¬ effect.Resets balancer.arn) →
    cloud.inventory.targets balancer.arn =
      some (after.foldl (Effect.onSet balancer.arn) instances.toFinset)
  described : ∀ arn set, cloud.inventory.targets arn = some set →
    Answers cloud (cloud.describe (.string arn)) fun outcome =>
      ∃ targets, outcome = .ok targets ∧ Ascending targets ∧ targets.toFinset = set
  missing : ∀ arn, cloud.inventory.targets arn = none →
    Answers cloud (cloud.describe (.string arn)) fun outcome =>
      outcome = .error (.loadBalancerMissing arn)
  listed : ∀ cluster, Answers cloud (cloud.list cluster) fun outcome =>
    outcome = .ok ((cloud.inventory.tagged cluster).map description)
  readBack : ∀ arn b, cloud.inventory.record arn = some b →
    (b.tag namespaceTag).isVoid = false → (b.tag ingressTag).isVoid = false →
    ∀ instances, Texts instances → ∃ sorted, Document.sort instances = .ok sorted ∧
      (description b).require "LoadBalancerArn" = .ok (.string b.arn) ∧
      Discovery.resourceOf (description b) (.string b.arn) instances =
        .ok (Discovery.found b sorted)
  failed : ∀ (access : Access) fault cloud', access.reply cloud = (.error fault, cloud') →
    cloud'.balancers = cloud.balancers ∧ cloud'.targets = cloud.targets
  /-- What succeeds changes nothing but at its name, and if it has none nothing at all. -/
  apart : ∀ (access : Access) effect? cloud', access.reply cloud = (.ok effect?, cloud') →
    ∀ arn, (∀ effect ∈ effect?, arn ≠ Effect.arn effect) →
      Ledger.get? arn cloud'.balancers = Ledger.get? arn cloud.balancers ∧
      Ledger.get? arn cloud'.targets = Ledger.get? arn cloud.targets
  updated : ∀ handle attributes changed cloud',
    cloud.update handle attributes = (.ok changed, cloud') →
    ∃ b, Ledger.get? handle.arn cloud.balancers = some b ∧
      Ledger.get? handle.arn cloud'.balancers = some changed ∧ cloud'.targets = cloud.targets ∧
      changed = { b with
        scheme := attributes.scheme
        subnets := attributes.subnets
        securityGroups := attributes.securityGroups
        nodePorts := attributes.nodePorts }
  calm : start.Calm → cloud.Calm

/-- Whatever accesses a service has had, it is a map from load balancers to sets of targets. -/
theorem Blank.keeps_accesses {start : Cloud} (hb : start.Blank) {accesses : List Access}
    (hf : Fit start accesses) : Keeps start accesses (start.run accesses) := by
  obtain ⟨htidy, hinventory⟩ := hb.tidy.run hf
  rw [hb.inventory_eq] at hinventory
  refine ⟨hinventory, htidy.inStep, ?_, fun _ _ => htidy.describe_some, fun _ => describe_none,
    htidy.list, fun _ _ hg hns hname _ => htidy.resourceOf_description hg hns hname,
    fun _ _ _ => unchanged_of_error, fun _ _ _ h _ => get?_of_ok h,
    fun _ _ _ _ => get?_of_update_ok, calm_run accesses⟩
  intro before balancer instances after heffects hresets
  rw [hinventory, heffects, List.foldl_append, List.foldl_cons]
  refine Inventory.targets_foldl ?_ hresets
  exact Function.update_self _ _ _

end Cloud

namespace Shop
open Cloud (Access Keeps)

def front : Handle where
  arn := "front"
  name := .string "front"
  tags := [(clusterTag, .string "shop"), (namespaceTag, .string "default"),
    (ingressTag, .string "web")]

/-- The load balancer is put in, targets come and go, and one call is about another one. -/
def visits : List Access :=
  [.add front [.string "i-1"], .register front [.string "i-2", .string "i-3"],
    .deregister front [.string "i-1"], .update { front with arn := "back" } ⟨.null, [], [], []⟩]

/-- Nothing is lost by the call that is about another load balancer. -/
theorem keeps_visits : Keeps {} visits (Cloud.run {} visits) ∧
    (Cloud.run {} visits).inventory.targets "front" = some {.string "i-2", .string "i-3"} := by
  refine ⟨Cloud.Blank.keeps_accesses ⟨rfl, rfl, rfl⟩
    ⟨⟨⟨?_, ?_⟩, ?_⟩, ⟨?_, ?_⟩, ?_, trivial, trivial⟩, ?_⟩
  · simp [Texts, Document.IsText]
  · simp
  · decide +kernel
  · simp [Texts, Document.IsText]
  · decide +kernel
  · change front.arn ∈ Ledger.keys _
    decide +kernel
  · decide +kernel

end Shop

end IngressControl
