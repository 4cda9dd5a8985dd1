import IngressControl.Proofs.Assembled
import Mathlib.Data.List.Induction

/-! Runs of an engine on a cloud. A run is a sequence of bootstraps and cycles, each seeing sources
of its own and each with outages of its own, so that any calls may fail anywhere in it. What every
step keeps holds wherever a run gets. -/

namespace IngressControl
open scoped List
open Document (Texts)

namespace Engine

/-- What a commit drops holds no load balancer. -/
@[simp] theorem holdings_filter_isKept (set : ResourceSet) :
    holdings (set.filter isKept) = holdings set := by
  induction set with
  | nil => rfl
  | cons r rest ih =>
    cases hk : isKept r with
    | true => rw [List.filter_cons_of_pos hk, holdings, List.flatMap_cons, ← holdings, ih]; rfl
    | false =>
      have hnone : r.handle = none := by
        simp only [isKept, Bool.or_eq_false_iff] at hk
        simpa using hk.2
      rw [List.filter_cons_of_neg (by simp [hk]), ih, holdings, holdings, List.flatMap_cons, hnone]
      rfl

/-- A commit keeps the owners of a planned set and their order. -/
@[simp] theorem owners_resourcesAfter (context : Context) (now : Moment) (cloud : Cloud)
    (planned : ResourceSet) :
    (resourcesAfter context now cloud planned).map Resource.owner = planned.map Resource.owner := by
  induction planned generalizing cloud with
  | nil => rfl
  | cons r rest ih =>
    simp [ih]

/-- Reconciling changes no owner, so the owners are those of the plan. -/
theorem distinct_reconciled {planned : ResourceSet} (hd : planned.Distinct) (context : Context)
    (now : Moment) (cloud : Cloud) : (resourcesAfter context now cloud planned).Distinct := by
  have howners : ((resourcesAfter context now cloud planned).map Resource.owner).Pairwise
      fun a b => a.same b = false := by
    rw [owners_resourcesAfter]
    exact List.pairwise_map.mpr hd
  exact List.pairwise_map.mp howners

theorem distinct_resourcesAfter {planned : ResourceSet} (hd : planned.Distinct) (context : Context)
    (now : Moment) (cloud : Cloud) :
    ResourceSet.Distinct ((resourcesAfter context now cloud planned).filter isKept) :=
  (distinct_reconciled hd context now cloud).filter _

/-- A cycle whose plan succeeds commits it. -/
theorem sync_of_plan {engine : Engine} {sources : Sources} {now : Moment} {cloud : Cloud}
    {planned : ResourceSet} (h : plan engine.context sources engine.resources = .ok planned) :
    engine.sync sources now cloud = engine.commit now cloud planned := by
  rw [sync, h]

/-- A cycle fails and leaves the set and the cloud alone, or commits its plan. -/
theorem sync_cases (engine : Engine) (sources : Sources) (now : Moment) (cloud : Cloud) :
    ((engine.sync sources now cloud).outcome ≠ .ok () ∧
        (engine.sync sources now cloud).engine.resources = engine.resources ∧
        (engine.sync sources now cloud).cloud = cloud) ∨
      ∃ planned, plan engine.context sources engine.resources = .ok planned ∧
        engine.sync sources now cloud = engine.commit now cloud planned := by
  unfold sync
  cases plan engine.context sources engine.resources with
  | error fault => exact Or.inl ⟨by simp, rfl, rfl⟩
  | ok planned => exact Or.inr ⟨planned, rfl, rfl⟩

@[simp] theorem commit_resources (engine : Engine) (now : Moment) (cloud : Cloud)
    (planned : ResourceSet) : (engine.commit now cloud planned).engine.resources =
      (resourcesAfter engine.context now cloud planned).filter isKept := rfl

@[simp] theorem commit_cloud (engine : Engine) (now : Moment) (cloud : Cloud)
    (planned : ResourceSet) :
    (engine.commit now cloud planned).cloud = cloudAfter engine.context now cloud planned := rfl

/-- What holds of the cloud and of the load balancers that a cycle plans for, and is kept by every
move for a resource of the plan, holds after the cycle. -/
theorem sync_induction {P : Cloud → List Holding → Prop} {engine : Engine} {sources : Sources}
    {cloud : Cloud} (now : Moment)
    (perm : ∀ cloud {hs hs' : List Holding}, hs ~ hs' → P cloud hs → P cloud hs')
    (before : P cloud (holdings engine.resources))
    (planning : ∀ planned, plan engine.context sources engine.resources = .ok planned →
      P cloud (holdings planned))
    (keeps : ∀ planned, plan engine.context sources engine.resources = .ok planned →
      ∀ r ∈ planned, r.tainted = false → ∀ {a b : Stage} {others : List Holding},
        Move engine.context r a b → P a.cloud (held r.owner a.handle ++ others) →
        P b.cloud (held r.owner b.handle ++ others)) :
    P (engine.sync sources now cloud).cloud
      (holdings (engine.sync sources now cloud).engine.resources) := by
  rcases sync_cases engine sources now cloud with ⟨-, hres, hcloud⟩ | ⟨planned, hplan, hsync⟩
  · rw [hres, hcloud]
    exact before
  · simpa [hsync] using holdings_induction perm (keeps planned hplan) (planning planned hplan)

/-- So does what moves keep only as long as the engine and the service agree. -/
theorem recorded_sync_induction {P : Cloud → List Holding → Prop} {engine : Engine}
    {sources : Sources} {cloud : Cloud} (now : Moment)
    (hr : Recorded cloud (holdings engine.resources))
    (perm : ∀ cloud {hs hs' : List Holding}, hs ~ hs' → P cloud hs → P cloud hs')
    (before : P cloud (holdings engine.resources))
    (planning : ∀ planned, plan engine.context sources engine.resources = .ok planned →
      P cloud (holdings planned))
    (keeps : ∀ planned, plan engine.context sources engine.resources = .ok planned →
      ∀ r ∈ planned, r.tainted = false → ∀ {a b : Stage} {others : List Holding},
        Move engine.context r a b → Recorded a.cloud (held r.owner a.handle ++ others) →
        P a.cloud (held r.owner a.handle ++ others) →
        P b.cloud (held r.owner b.handle ++ others)) :
    P (engine.sync sources now cloud).cloud
      (holdings (engine.sync sources now cloud).engine.resources) := by
  -- the agreement is kept by every move itself, so it is carried along
  let Q : Cloud → List Holding → Prop := fun cloud hs => Recorded cloud hs ∧ P cloud hs
  have hall : Q (engine.sync sources now cloud).cloud
      (holdings (engine.sync sources now cloud).engine.resources) := by
    refine sync_induction now (fun cloud _ _ hp h => ?_) ⟨hr, before⟩ (fun planned hplan => ?_) ?_
    · exact ⟨h.1.subperm hp.symm.subperm, perm cloud hp h.2⟩
    · exact ⟨hr.subperm (holdings_plan_subperm hplan), planning planned hplan⟩
    · intro planned hplan r hmem ht a b others hm h
      exact ⟨hm.recorded h.1, keeps planned hplan r hmem ht hm h.1 h.2⟩
  exact hall.2

/-- A cycle keeps the owners of a committed set different. -/
theorem distinct_sync {engine : Engine} (hd : engine.resources.Distinct) (sources : Sources)
    (now : Moment) (cloud : Cloud) : (engine.sync sources now cloud).engine.resources.Distinct := by
  rcases sync_cases engine sources now cloud with ⟨-, hres, -⟩ | ⟨planned, hplan, hsync⟩
  · rwa [hres]
  · rw [hsync]
    exact distinct_resourcesAfter (distinct_plan hd hplan) _ _ _

theorem context_sync (engine : Engine) (sources : Sources) (now : Moment) (cloud : Cloud) :
    (engine.sync sources now cloud).engine.context = engine.context := by
  unfold sync
  split <;> rfl

/-- A bootstrap changes nothing, or fills an empty set from the load balancers of the cluster. -/
theorem bootstrap_cases (engine : Engine) {cloud : Cloud} (hs : cloud.Sound) :
    (engine.bootstrap cloud).cloud.store = cloud.store ∧
      (((engine.resources ≠ [] ∨ (engine.bootstrap cloud).outcome ≠ .ok ()) ∧
          (engine.bootstrap cloud).engine = engine) ∨
        (engine.bootstrap cloud).engine.context = engine.context ∧ engine.resources = [] ∧
          (engine.bootstrap cloud).engine.resources.Distinct ∧
          List.Forall₂ (Discovery.Finds cloud) (cloud.ofCluster engine.context.clusterName)
            (engine.bootstrap cloud).engine.resources) := by
  unfold bootstrap
  by_cases hempty : engine.resources = []
  · -- a description reads back as its load balancer if no tag occurs twice
    have htags : ∀ b ∈ cloud.ofCluster engine.context.clusterName, (Ledger.keys b.tags).Nodup :=
      fun b hb => hs.tags (hs.get?_of_mem_ofCluster hb)
    rw [if_neg (by simp [hempty])]
    cases ha : Discovery.assemble cloud engine.context.clusterName with
    | mk outcome cloud' =>
      obtain ⟨hstore, hfound⟩ := Discovery.assemble_cases htags hs.listing ha
      cases outcome with
      | error fault => exact ⟨hstore, Or.inl ⟨Or.inr (by simp), rfl⟩⟩
      | ok found => exact ⟨hstore, Or.inr ⟨rfl, hempty, hfound found rfl⟩⟩
  · rw [if_pos (by simpa using hempty)]
    exact ⟨rfl, Or.inl ⟨Or.inl hempty, rfl⟩⟩

end Engine

def Cloud.withOutages (cloud : Cloud) (outages : List Outage) : Cloud :=
  { cloud with outages := outages }

/-- Outages do not touch the store. -/
@[simp] theorem Cloud.store_withOutages (cloud : Cloud) (outages : List Outage) :
    (cloud.withOutages outages).store = cloud.store := rfl

structure Site where
  engine : Engine
  cloud : Cloud

inductive Step
  | bootstrap (outages : List Outage)
  | sync (outages : List Outage) (sources : Sources) (now : Moment)

namespace Step

def cycle (site : Site) : Step → Cycle
  | bootstrap outages => site.engine.bootstrap (site.cloud.withOutages outages)
  | sync outages sources now => site.engine.sync sources now (site.cloud.withOutages outages)

/-- All instances of nodes that a step sees are texts. -/
def TextNodes : Step → Prop
  | bootstrap _ => True
  | sync _ sources _ =>
    ∀ instances, Node.listInstances sources.nodes = .ok instances → Texts instances

/-- A step gives a load balancer up: it is a cycle that succeeds, the resource of the load balancer
was tainted before it, and none of the ingresses that it lists has the owner of the resource. -/
def Abandons (site : Site) (arn : String) : Step → Prop
  | bootstrap _ => False
  | sync outages sources now =>
    ((sync outages sources now).cycle site).outcome = .ok () ∧
      ∃ r ∈ site.engine.resources, r.handle.map Handle.arn = some arn ∧ r.tainted = true ∧
        ¬ Engine.Declared site.engine.context sources r.owner

end Step

namespace Site

variable {site : Site} {steps : List Step} {step : Step}

def next (site : Site) (step : Step) : Site := ⟨(step.cycle site).engine, (step.cycle site).cloud⟩

def run (site : Site) (steps : List Step) : Site := steps.foldl next site

@[simp] theorem run_nil (site : Site) : site.run [] = site := rfl

@[simp] theorem run_cons (site : Site) (step : Step) (steps : List Step) :
    site.run (step :: steps) = (site.next step).run steps := rfl

@[simp] theorem run_append_singleton (site : Site) (steps : List Step) (step : Step) :
    site.run (steps ++ [step]) = (site.run steps).next step := by
  rw [run, List.foldl_append]
  rfl

/-- Some step of a run gives a load balancer up. -/
def Abandoned (site : Site) (steps : List Step) (arn : String) : Prop :=
  ∃ before step after, steps = before ++ step :: after ∧ step.Abandons (site.run before) arn

/-- What a run gave up stays given up, however the run goes on. -/
theorem Abandoned.append {arn : String} (h : site.Abandoned steps arn) (more : List Step) :
    site.Abandoned (steps ++ more) arn := by
  obtain ⟨before, step, after, rfl, ha⟩ := h
  exact ⟨before, step, after ++ more, by simp, ha⟩

theorem Abandoned.cons {arn : String} (h : (site.next step).Abandoned steps arn) :
    site.Abandoned (step :: steps) arn := by
  obtain ⟨before, last, after, rfl, ha⟩ := h
  exact ⟨step :: before, last, after, rfl, ha⟩

theorem not_abandoned_nil {arn : String} : ¬ site.Abandoned [] arn := by
  rintro ⟨before, step, after, hsplit, -⟩
  cases before <;> cases hsplit

/-- A run gives a load balancer up in its first step, or after it. -/
theorem abandoned_cons {arn : String} (h : site.Abandoned (step :: steps) arn) :
    step.Abandons site arn ∨ (site.next step).Abandoned steps arn := by
  obtain ⟨before, last, after, hsplit, ha⟩ := h
  cases before with
  | nil =>
    obtain ⟨rfl, rfl⟩ := List.cons.inj hsplit
    exact Or.inl ha
  | cons first before =>
    obtain ⟨rfl, rfl⟩ := List.cons.inj hsplit
    exact Or.inr ⟨before, last, after, rfl, ha⟩

theorem abandoned_of_abandons {arn : String} (h : step.Abandons (site.run steps) arn) :
    site.Abandoned (steps ++ [step]) arn := ⟨steps, step, [], rfl, h⟩

structure Initial (site : Site) : Prop where
  empty : site.engine.resources = []
  sound : site.cloud.Sound
  fresh : site.cloud.Fresh

/-- What holds between the steps of every run. -/
structure Consistent (site : Site) : Prop where
  recorded : Recorded site.cloud (holdings site.engine.resources)
  distinct : site.engine.resources.Distinct

/-- A site is consistent at its start. -/
theorem Initial.consistent (h : site.Initial) : site.Consistent := by
  refine ⟨?_, ?_⟩
  · rw [h.empty]
    exact ⟨h.sound, h.fresh, List.nodup_nil, by simp [holdings], by simp [holdings]⟩
  · rw [h.empty]
    exact List.Pairwise.nil

@[simp] theorem context_next (site : Site) (step : Step) :
    (site.next step).engine.context = site.engine.context := by
  cases step with
  | bootstrap outages =>
    change (site.engine.bootstrap _).engine.context = _
    unfold Engine.bootstrap
    split
    · rfl
    · split <;> rfl
  | sync outages sources now => exact Engine.context_sync _ _ _ _

@[simp] theorem context_run (site : Site) (steps : List Step) :
    (site.run steps).engine.context = site.engine.context := by
  induction steps generalizing site with
  | nil => rfl
  | cons step rest ih => simp [ih]

/-- Every step keeps a site consistent. -/
theorem Consistent.next (h : site.Consistent) (step : Step) : (site.next step).Consistent := by
  cases step with
  | bootstrap outages =>
    have hr := h.recorded.of_store_eq (site.cloud.store_withOutages outages)
    obtain ⟨hstore, ⟨-, he⟩ | ⟨-, -, hd, hf⟩⟩ := Engine.bootstrap_cases site.engine hr.sound
    · have hkept : (site.next (.bootstrap outages)).engine = site.engine := he
      refine ⟨?_, hkept ▸ h.distinct⟩
      rw [hkept]
      exact hr.of_store_eq hstore
    · exact ⟨(Discovery.recorded_finds hr.sound hr.fresh hf).of_store_eq hstore, hd⟩
  | sync outages sources now =>
    have hr := h.recorded.of_store_eq (site.cloud.store_withOutages outages)
    refine ⟨?_, Engine.distinct_sync h.distinct sources now _⟩
    -- a plan only leaves load balancers out, and every move keeps the agreement
    exact Engine.sync_induction now (fun _ _ _ hp hr => hr.subperm hp.symm.subperm) hr
      (fun _ hplan => hr.subperm (Engine.holdings_plan_subperm hplan))
      (fun _ _ _ _ _ _ _ _ hm hr => hm.recorded hr)

/-- The engine and the service agree wherever a run gets. -/
theorem Initial.consistent_run (h : site.Initial) (steps : List Step) :
    (site.run steps).Consistent := by
  induction steps using List.reverseRecOn with
  | nil => exact h.consistent
  | append_singleton steps step ih =>
    simpa using ih.next step

end Site

/-! A small cluster: one ingress, the service behind it and one node. -/

namespace Shop

def ingress : Document :=
  .object [("metadata", .object [("name", .string "web")]),
    ("spec", .object [("backend",
      .object [("serviceName", .string "web"), ("servicePort", .int 80)])])]

def service : Document :=
  .object [("metadata", .object [("namespace", .string "default"), ("name", .string "web")]),
    ("spec", .object [("type", .string "NodePort"),
      ("ports", .array [.object [("port", .int 80), ("nodePort", .int 30080)]])])]

def node : Document := .object [("spec", .object [("externalID", .string "i-1")])]

def sources (ingresses services : List Document) : Sources :=
  ⟨.objects ingresses, .objects services, .objects [node]⟩

def sync (outages : List Outage) (ingresses services : List Document) : Step :=
  .sync outages (sources ingresses services) default

def registrationFails : Outage := ⟨.register, none, "down", 0, 1⟩

def start : Site := ⟨{ context := { clusterName := "shop" } }, {}⟩

theorem initial_start : start.Initial where
  empty := rfl
  sound := ⟨List.nodup_nil, nofun, nofun, rfl⟩
  fresh := nofun

theorem textNodes_sync (outages : List Outage) (ingresses services : List Document) :
    (sync outages ingresses services).TextNodes := by
  intro instances hlisted
  have hnode : Node.listInstances (.objects [node]) = .ok [.string "i-1"] := by decide +kernel
  obtain rfl := Except.ok.inj (hnode.symm.trans hlisted)
  simp [Texts, Document.IsText]

end Shop

end IngressControl
