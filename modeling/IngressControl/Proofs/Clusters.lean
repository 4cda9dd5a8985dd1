import IngressControl.Proofs.Deletions
import IngressControl.Proofs.Tagging
import Mathlib.Logic.Function.Basic

/-! Engines of different clusters on one cloud. An engine only ever changes load balancers that are
tagged for its own cluster, so however the engines take turns and whichever calls fail, none of
them sees that the others are there: the set of each stays a mirror of the cloud. -/

namespace IngressControl
open scoped List
open Document (Texts)

namespace Cloud

variable {cluster cluster' : String} {b b' : Handle}

theorem belongsTo_of_tags (ht : b.tags = b'.tags) : belongsTo cluster b = belongsTo cluster b' := by
  rw [belongsTo, ht, ← belongsTo]

/-- A load balancer is tagged for one cluster at most. -/
theorem belongsTo_unique (h : belongsTo cluster b = true) (h' : belongsTo cluster' b = true) :
    cluster = cluster' := by
  have htag := (Document.same_string_iff _ _).mp h
  have htag' := (Document.same_string_iff _ _).mp h'
  exact Document.string.inj (htag.symm.trans htag')

/-- What the engine tags belongs to its cluster. -/
theorem belongsTo_of_engine_tags {context : Context} {owner : Owner}
    (ht : b.tags = Engine.tags context owner) : belongsTo context.clusterName b = true := by
  rw [belongsTo, ht, Document.same_string_iff]
  rfl

end Cloud

def Own (cluster : String) (hs : List Holding) : Prop :=
  ∀ x ∈ hs, Cloud.belongsTo cluster x.handle = true

theorem Own.subset {cluster : String} {hs hs' : List Holding} (hsub : ∀ x ∈ hs', x ∈ hs)
    (ho : Own cluster hs) : Own cluster hs' := fun x hx => ho x (hsub x hx)

/-- What a move leaves is tagged for the cluster of the engine, if what it came with was. -/
theorem Engine.Move.own {context : Context} {r : Resource} {a b : Stage} {others : List Holding}
    (hm : Move context r a b) (hr : Recorded a.cloud (held r.owner a.handle ++ others))
    (ho : Own context.clusterName (held r.owner a.handle ++ others)) :
    Own context.clusterName (held r.owner b.handle ++ others) := by
  intro x hx
  rcases List.mem_append.mp hx with hx | hx
  · obtain ⟨h', hh, rfl⟩ := Option.map_eq_some_iff.mp (Option.mem_toList.mp hx)
    rcases hm.handle_tags hr hh with ⟨h, ha, ht⟩ | ⟨spec, -, ht⟩
    · rw [Cloud.belongsTo_of_tags ht]
      exact ho ⟨r.owner, h⟩ (List.mem_append_left _ (by simp [held, ha]))
    · exact Cloud.belongsTo_of_engine_tags ht
  · exact ho x (List.mem_append_right _ hx)

namespace Site

variable {site : Site}

/-- A step leaves an engine with handles of its own cluster only. -/
theorem own_next (hr : Recorded site.cloud (holdings site.engine.resources))
    (ho : Own site.engine.context.clusterName (holdings site.engine.resources)) (step : Step) :
    Own site.engine.context.clusterName (holdings (site.next step).engine.resources) := by
  cases step with
  | bootstrap outages =>
    have hr := hr.of_store_eq (site.cloud.store_withOutages outages)
    obtain ⟨-, ⟨-, he⟩ | ⟨-, -, -, hf⟩⟩ := Engine.bootstrap_cases site.engine hr.sound
    · have hkept : (site.next (.bootstrap outages)).engine = site.engine := he
      rwa [hkept]
    · -- an assembly only takes up the load balancers that it lists for the cluster
      intro x hx
      obtain ⟨b, hb, ha⟩ := Discovery.exists_adopts hf x hx
      rw [Cloud.belongsTo_of_tags (Handle.tags_of_bare ha.bare)]
      exact (Cloud.mem_ofCluster.mp hb).2
  | sync outages sources now =>
    have hr := hr.of_store_eq (site.cloud.store_withOutages outages)
    refine Engine.recorded_sync_induction (P := fun _ hs => Own _ hs) now hr
      (fun _ _ _ hp ho => ho.subset fun x => hp.mem_iff.mpr) ho (fun planned hplan => ?_) ?_
    · have hsub := Engine.holdings_plan_subperm hplan
      exact ho.subset fun x hx => hsub.subset hx
    · intro planned hplan r hmem ht a b others hm hr ho
      exact hm.own hr ho

/-- A step leaves every load balancer alone that is not tagged for the cluster of the engine. -/
theorem sameAt_next (hr : Recorded site.cloud (holdings site.engine.resources))
    (ho : Own site.engine.context.clusterName (holdings site.engine.resources)) {arn : String}
    {b : Handle} (hb : Ledger.get? arn site.cloud.balancers = some b)
    (hn : Cloud.belongsTo site.engine.context.clusterName b = false) (step : Step) :
    Cloud.SameAt arn site.cloud (site.next step).cloud := by
  cases step with
  | bootstrap outages =>
    have hstore := site.cloud.store_withOutages outages
    have hr := hr.of_store_eq hstore
    exact .of_store ((Engine.bootstrap_cases site.engine hr.sound).1.trans hstore)
  | sync outages sources now =>
    have hstore := site.cloud.store_withOutages outages
    have hr := hr.of_store_eq hstore
    have hfirst : Cloud.SameAt arn site.cloud (site.cloud.withOutages outages) := .of_store hstore
    rcases Engine.sync_cases site.engine sources now (site.cloud.withOutages outages) with
      ⟨-, -, hcloud⟩ | ⟨planned, hplan, hsync⟩
    · have hkept : (site.next (.sync outages sources now)).cloud =
          site.cloud.withOutages outages := hcloud
      rwa [hkept]
    · have hcommit : (site.next (.sync outages sources now)).cloud =
          Engine.cloudAfter site.engine.context now (site.cloud.withOutages outages) planned :=
        congrArg Cycle.cloud hsync
      rw [hcommit]
      have hspent : (site.cloud.withOutages outages).Spent arn :=
        hr.fresh arn (Ledger.mem_keys_of_get? hb)
      refine hfirst.trans (Engine.sameAt_cloudAfter hr.sound.filed hspent fun r hmem _ ha => ?_)
      -- the engine would have a handle of this name, which describes the load balancer
      obtain ⟨h, hh, rfl⟩ := Option.map_eq_some_iff.mp ha
      have hx : (⟨r.owner, h⟩ : Holding) ∈ holdings site.engine.resources :=
        (Engine.holdings_plan_subperm hplan).subset (mem_holdings.mpr ⟨r, hmem, rfl, hh⟩)
      obtain ⟨stored, hstored, hbare⟩ := hr.known _ hx
      obtain rfl := Option.some.inj (hb.symm.trans hstored)
      rw [Cloud.belongsTo_of_tags (Handle.tags_of_bare hbare), ho _ hx] at hn
      cases hn

end Site

/-- What an engine knows of a cloud it knows of one in which its load balancers are the same. -/
theorem Mirrored.of_sameAt {cloud cloud' : Cloud} {hs hs' : List Holding} (hm : Mirrored cloud hs)
    (hm' : Mirrored cloud' hs') (hsame : ∀ x ∈ hs, Cloud.SameAt x.handle.arn cloud cloud') :
    Mirrored cloud' hs where
  sound := hm'.sound
  fresh := hm'.fresh
  nodup := hm.nodup
  known x hx := by
    obtain ⟨b, hb, hbare⟩ := hm.known x hx
    exact ⟨b, (hsame x hx).balancer.trans hb, hbare⟩
  targeted x hx := (congrArg Option.isSome (hsame x hx).targets).trans (hm.targeted x hx)
  texts := hm'.texts
  mirrors x hx := by
    obtain ⟨targets, hg, hmem⟩ := hm.mirrors x hx
    exact ⟨targets, (hsame x hx).targets.trans hg, hmem⟩

structure Fleet (ι : Type) where
  engines : ι → Engine
  cloud : Cloud

namespace Fleet

variable {ι : Type} {fleet : Fleet ι}

def site (fleet : Fleet ι) (i : ι) : Site := ⟨fleet.engines i, fleet.cloud⟩

def cluster (fleet : Fleet ι) (i : ι) : String := (fleet.engines i).context.clusterName

structure Initial (fleet : Fleet ι) : Prop where
  empty : ∀ i, (fleet.engines i).resources = []
  apart : Function.Injective fleet.cluster
  sound : fleet.cloud.Sound
  fresh : fleet.cloud.Fresh
  texts : fleet.cloud.TextTargets

structure Orderly (fleet : Fleet ι) : Prop where
  apart : Function.Injective fleet.cluster
  mirrored : ∀ i, Mirrored (fleet.site i).cloud (holdings (fleet.site i).engine.resources)
  own : ∀ i, Own (fleet.site i).engine.context.clusterName
    (holdings (fleet.site i).engine.resources)

theorem Initial.orderly (hi : fleet.Initial) : fleet.Orderly where
  apart := hi.apart
  mirrored i := by
    have hsite : (fleet.site i).Initial := ⟨hi.empty i, hi.sound, hi.fresh⟩
    have hrun : Mirrored ((fleet.site i).run []).cloud
        (holdings ((fleet.site i).run []).engine.resources) := hsite.mirrored_run hi.texts nofun
    exact hrun
  own i x hx := by
    have hempty : (fleet.site i).engine.resources = [] := hi.empty i
    rw [hempty] at hx
    cases hx

variable [DecidableEq ι]

def next (fleet : Fleet ι) (i : ι) (step : Step) : Fleet ι where
  engines := Function.update fleet.engines i ((fleet.site i).next step).engine
  cloud := ((fleet.site i).next step).cloud

def run (fleet : Fleet ι) (moves : List (ι × Step)) : Fleet ι :=
  moves.foldl (fun fleet move => fleet.next move.1 move.2) fleet

@[simp] theorem run_append_singleton (fleet : Fleet ι) (moves : List (ι × Step)) (move : ι × Step) :
    fleet.run (moves ++ [move]) = (fleet.run moves).next move.1 move.2 := by
  rw [run, List.foldl_append]
  rfl

@[simp] theorem site_next_self (fleet : Fleet ι) (i : ι) (step : Step) :
    (fleet.next i step).site i = (fleet.site i).next step := by
  have hengine : (fleet.next i step).engines i = ((fleet.site i).next step).engine :=
    Function.update_self i _ fleet.engines
  rw [site, hengine]
  rfl

theorem site_next_of_ne (fleet : Fleet ι) {i j : ι} (hj : j ≠ i) (step : Step) :
    (fleet.next i step).site j = ⟨fleet.engines j, (fleet.next i step).cloud⟩ := by
  have hengine : (fleet.next i step).engines j = fleet.engines j :=
    Function.update_of_ne hj _ fleet.engines
  rw [site, hengine]

@[simp] theorem cluster_next (fleet : Fleet ι) (i : ι) (step : Step) :
    (fleet.next i step).cluster = fleet.cluster := by
  funext j
  change ((fleet.next i step).site j).engine.context.clusterName = _
  by_cases hj : j = i
  · subst hj
    rw [site_next_self, Site.context_next]
    rfl
  · rw [site_next_of_ne fleet hj]
    rfl

/-- The load balancers of the other engines stay as they are. -/
theorem Orderly.sameAt_next (h : fleet.Orderly) {i j : ι} (hj : j ≠ i) (step : Step) {x : Holding}
    (hx : x ∈ holdings (fleet.engines j).resources) :
    Cloud.SameAt x.handle.arn fleet.cloud (fleet.next i step).cloud := by
  obtain ⟨b, hb, hbare⟩ := (h.mirrored j).known x hx
  have hforeign : Cloud.belongsTo (fleet.cluster i) b = false := by
    rw [Cloud.belongsTo_of_tags (Handle.tags_of_bare hbare), ← Bool.not_eq_true]
    intro hmine
    exact hj (h.apart (Cloud.belongsTo_unique (h.own j x hx) hmine))
  exact Site.sameAt_next (h.mirrored i).toRecorded (h.own i) hb hforeign step

/-- A step of any engine keeps a fleet orderly. -/
theorem Orderly.next (h : fleet.Orderly) (i : ι) {step : Step} (hn : step.TextNodes) :
    (fleet.next i step).Orderly := by
  have hmirrored := Site.mirrored_next hn (h.mirrored i)
  refine ⟨cluster_next fleet i step ▸ h.apart, fun j => ?_, fun j => ?_⟩
  · by_cases hj : j = i
    · subst hj
      simpa
    · rw [site_next_of_ne fleet hj]
      exact (h.mirrored j).of_sameAt hmirrored fun x hx => h.sameAt_next hj step hx
  · by_cases hj : j = i
    · subst hj
      simpa using Site.own_next (h.mirrored j).toRecorded (h.own j) step
    · rw [site_next_of_ne fleet hj]
      exact h.own j

theorem Initial.orderly_run (hi : fleet.Initial) {moves : List (ι × Step)}
    (hn : ∀ move ∈ moves, move.2.TextNodes) : (fleet.run moves).Orderly := by
  induction moves using List.reverseRecOn with
  | nil => exact hi.orderly
  | append_singleton moves move ih =>
    simpa using (ih fun m hm => hn m (by simp [hm])).next move.1 (hn move (by simp))

structure Apart (fleet : Fleet ι) : Prop where
  /-- A step of an engine changes neither the load balancer nor the targets under a name, if the
  load balancer is not tagged for the cluster of the engine. -/
  spared : ∀ i step arn b, Ledger.get? arn fleet.cloud.balancers = some b →
    Cloud.belongsTo (fleet.cluster i) b = false →
    Cloud.SameAt arn fleet.cloud (fleet.next i step).cloud
  own : ∀ i, ∀ r ∈ (fleet.engines i).resources, ∀ h, r.handle = some h →
    ∃ b, Ledger.get? h.arn fleet.cloud.balancers = some b ∧
      Cloud.belongsTo (fleet.cluster i) b = true
  mirror : ∀ i, (fleet.site i).Mirror

/-- Whatever bootstraps and cycles engines of different clusters make on one cloud, in whatever
order, and whichever calls fail, they do not get into each other's way. -/
theorem apart_run (hi : fleet.Initial) {moves : List (ι × Step)}
    (hn : ∀ move ∈ moves, move.2.TextNodes) : (fleet.run moves).Apart := by
  have h := hi.orderly_run hn
  refine ⟨fun i step arn b hb hforeign => ?_, fun i r hr handle hh => ?_, fun i => ?_⟩
  · exact Site.sameAt_next (h.mirrored i).toRecorded (h.own i) hb
      hforeign step
  · have hx : (⟨r.owner, handle⟩ : Holding) ∈
        holdings ((fleet.run moves).engines i).resources := mem_holdings.mpr ⟨r, hr, rfl, hh⟩
    obtain ⟨b, hb, hbare⟩ := (h.mirrored i).known _ hx
    refine ⟨b, hb, ?_⟩
    rw [Cloud.belongsTo_of_tags (Handle.tags_of_bare hbare)]
    exact h.own i _ hx
  · exact (h.mirrored i).mirror

end Fleet

/-! Two shops whose engines share a cloud, in which there is a load balancer of nobody. -/

namespace Shop

def market : Engine := { context := { clusterName := "market" } }

def pair : Fleet Bool where
  engines := fun first => if first then start.engine else market
  cloud := sharingCloud

def turns : List (Bool × Step) :=
  [(true, sync [] [ingress] [service]), (false, .bootstrap []),
    (false, sync [registrationFails] [ingress] [service]), (true, sync [] [] [service])]

theorem spent_shared : sharingCloud.Spent shared.arn := by
  intro stem n _ he
  obtain ⟨front, hs⟩ := Cloud.exists_toList_arn sharingCloud.region stem n
  have hslash : '/' ∈ shared.arn.toList := by
    rw [← he, hs]
    exact List.mem_append_right _ List.mem_cons_self
  exact absurd hslash (by decide)

theorem initial_pair : pair.Initial where
  empty i := by cases i <;> rfl
  apart := by
    have hne : ("shop" : String) ≠ "market" := by decide
    intro i j h
    cases i <;> cases j
    · rfl
    · exact absurd h.symm hne
    · exact absurd h hne
    · rfl
  sound := by
    have hempty : ({} : Cloud).Sound := initial_start.sound
    exact hempty.put (b := shared) List.nodup_nil rfl rfl
  fresh := by
    intro name hname
    obtain rfl := List.mem_singleton.mp hname
    exact spent_shared
  texts := by
    have hempty : ({} : Cloud).TextTargets := nofun
    have htexts : Texts [.string "i-1"] := fun d hd => ⟨"i-1", List.mem_singleton.mp hd⟩
    have he : sharingCloud.targets = Ledger.put shared.arn [.string "i-1"] ({} : Cloud).targets :=
      rfl
    exact hempty.put htexts he

/-- After the turns the load balancers of nobody and of the second shop are there. -/
theorem apart_turns :
    (pair.run turns).cloud.balancers.map (fun entry => entry.2.tags) =
        [[], Engine.tags market.context (.ingress ⟨"default", "web"⟩)] ∧
      (pair.run turns).Apart := by
  refine ⟨by decide +kernel, Fleet.apart_run initial_pair fun move hm => ?_⟩
  simp only [turns, List.mem_cons, List.not_mem_nil, or_false] at hm
  rcases hm with rfl | rfl | rfl | rfl
  · exact textNodes_sync _ _ _
  · trivial
  · exact textNodes_sync _ _ _
  · exact textNodes_sync _ _ _

end Shop

end IngressControl
