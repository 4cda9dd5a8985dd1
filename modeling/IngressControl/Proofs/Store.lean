import IngressControl.Engine.Reconcile
import IngressControl.Proofs.Arn
import IngressControl.Proofs.Ledger

/-! What one call can do to the store of a cloud. A call that fails leaves the store as it is, and a
call that succeeds has one effect on it, whatever outages are to come. -/

namespace IngressControl

/-- A handle without its instances. -/
def Handle.bare (h : Handle) : Handle := { h with instances := [] }

section Bare

variable {h h' : Handle}

theorem Handle.arn_of_bare (hb : h.bare = h'.bare) : h.arn = h'.arn := by
  have ha := congrArg Handle.arn hb
  exact ha

theorem Handle.name_of_bare (hb : h.bare = h'.bare) : h.name = h'.name := by
  have hn := congrArg Handle.name hb
  exact hn

theorem Handle.tags_of_bare (hb : h.bare = h'.bare) : h.tags = h'.tags := by
  have ht := congrArg Handle.tags hb
  exact ht

end Bare

namespace Cloud

/-- What a cloud holds, apart from the calls that it has seen and the outages to come. -/
def store (cloud : Cloud) : Cloud := { cloud with calls := [], outages := [] }

/-- The load balancers are part of the store. -/
theorem balancers_of_store {a b : Cloud} (h : a.store = b.store) : a.balancers = b.balancers := by
  have hb := congrArg balancers h
  exact hb

theorem targets_of_store {a b : Cloud} (h : a.store = b.store) : a.targets = b.targets := by
  have ht := congrArg targets h
  exact ht

/-- The balancers after a call whose effect on the store is known. -/
theorem balancers_of_effect {cloud effect : Cloud} (h : cloud.store = effect) :
    cloud.balancers = effect.balancers := by
  subst h
  rfl

theorem limit_of_store {a b : Cloud} (h : a.store = b.store) : a.limit = b.limit := by
  have hl := congrArg limit h
  exact hl

/-- No call is made to fail. -/
def Calm (cloud : Cloud) : Prop := cloud.outages = []

/-- A call fails through an outage, or it is carried out on an unchanged store. -/
theorem perform_cases {α : Type} {cloud cloud' : Cloud} {operation : Operation} {target : Document}
    {act : Cloud → Reply α} {outcome : Except Fault α}
    (h : cloud.perform operation target act = (outcome, cloud')) :
    (¬ cloud.Calm ∧ (∃ reason, outcome = .error (.outage reason)) ∧ cloud'.store = cloud.store) ∨
      ∃ c, c.store = cloud.store ∧ (cloud.Calm → c.Calm) ∧ act c = (outcome, cloud') := by
  simp only [perform] at h
  cases hm : Outage.meet ⟨operation, target⟩ cloud.outages with
  | mk reason outages =>
    rw [hm] at h
    cases reason with
    | none =>
      refine Or.inr ⟨_, ?_, ?_, h⟩
      · rfl
      · intro hcalm
        rw [Calm] at hcalm ⊢
        rw [hcalm] at hm
        exact (congrArg Prod.snd hm).symm
    | some reason =>
      obtain ⟨rfl, rfl⟩ := Prod.mk.inj h
      refine Or.inl ⟨?_, ⟨reason, rfl⟩, rfl⟩
      intro hcalm
      rw [hcalm] at hm
      exact absurd (congrArg Prod.fst hm) (by simp [Outage.meet])

/-- Without outages every call is carried out. -/
theorem perform_of_calm {α : Type} {cloud : Cloud} (hc : cloud.Calm) (operation : Operation)
    (target : Document) (act : Cloud → Reply α) :
    ∃ c, c.store = cloud.store ∧ c.Calm ∧ cloud.perform operation target act = act c := by
  rcases perform_cases (rfl : cloud.perform operation target act = (_, _)) with
    ⟨hn, -⟩ | ⟨c, hs, hcalm, ha⟩
  · exact absurd hc hn
  · exact ⟨c, hs, hcalm hc, ha.symm⟩

def made (cloud : Cloud) (name : String) (attributes : Attributes)
    (tags : List (String × Document)) : Handle :=
  attributes.change {
    arn := arn cloud.region name (cloud.created + 1)
    name := .string name
    dnsName := .string (name ++ "." ++ cloud.region.display ++ ".elb.amazonaws.com")
    tags := tags }

def withMade (cloud : Cloud) (name : String) (attributes : Attributes)
    (tags : List (String × Document)) : Cloud :=
  { cloud with created := cloud.created + 1 }.add (cloud.made name attributes tags) []

def withBalancer (cloud : Cloud) (arn : String) (balancer : Handle) : Cloud :=
  { cloud with balancers := Ledger.put arn balancer cloud.balancers }

def withoutBalancer (cloud : Cloud) (arn : String) : Cloud :=
  { cloud with
    balancers := Ledger.erase arn cloud.balancers
    targets := Ledger.erase arn cloud.targets }

def withTargets (cloud : Cloud) (arn : String) (change : List Document → List Document) : Cloud :=
  { cloud with
    targets := Ledger.put arn (change ((Ledger.get? arn cloud.targets).getD [])) cloud.targets }

section Fields

variable (cloud : Cloud) (name arn : String) (attributes : Attributes)
  (tags : List (String × Document)) (balancer : Handle) (change : List Document → List Document)

@[simp] theorem Attributes.arn_change : (attributes.change balancer).arn = balancer.arn := by rfl

@[simp] theorem Attributes.tags_change : (attributes.change balancer).tags = balancer.tags := by rfl

@[simp] theorem balancers_store : cloud.store.balancers = cloud.balancers := by rfl

@[simp] theorem targets_store : cloud.store.targets = cloud.targets := by rfl

@[simp] theorem made_store :
    cloud.store.made name attributes tags = cloud.made name attributes tags := by rfl

@[simp] theorem balancers_withMade : (cloud.withMade name attributes tags).balancers =
    Ledger.put (cloud.made name attributes tags).arn (cloud.made name attributes tags)
      cloud.balancers := by rfl

@[simp] theorem targets_withMade : (cloud.withMade name attributes tags).targets =
    Ledger.put (cloud.made name attributes tags).arn [] cloud.targets := by rfl

@[simp] theorem balancers_withBalancer : (cloud.withBalancer arn balancer).balancers =
    Ledger.put arn balancer cloud.balancers := by rfl

@[simp] theorem targets_withBalancer :
    (cloud.withBalancer arn balancer).targets = cloud.targets := by rfl

@[simp] theorem balancers_withoutBalancer :
    (cloud.withoutBalancer arn).balancers = Ledger.erase arn cloud.balancers := by rfl

@[simp] theorem targets_withoutBalancer :
    (cloud.withoutBalancer arn).targets = Ledger.erase arn cloud.targets := by rfl

@[simp] theorem balancers_withTargets :
    (cloud.withTargets arn change).balancers = cloud.balancers := by rfl

@[simp] theorem targets_withTargets : (cloud.withTargets arn change).targets =
    Ledger.put arn (change ((Ledger.get? arn cloud.targets).getD [])) cloud.targets := by rfl

end Fields

/-- A creation is refused during an outage and leaves the store alone, or puts the new load balancer
into it. -/
theorem create_cases {cloud cloud' : Cloud} {name : String} {attributes : Attributes}
    {tags : List (String × Document)} {outcome : Except Fault Handle}
    (h : cloud.create name attributes tags = (outcome, cloud')) :
    (¬ cloud.Calm ∧ (∃ fault, outcome = .error fault) ∧ cloud'.store = cloud.store) ∨
      (outcome = .ok (cloud.made name attributes tags) ∧
        cloud'.store = cloud.store.withMade name attributes tags ∧
        (cloud.Calm → cloud'.Calm)) := by
  rcases perform_cases h with ⟨hn, ⟨reason, rfl⟩, hs⟩ | ⟨c, hc, hcalm, ha⟩
  · exact Or.inl ⟨hn, ⟨_, rfl⟩, hs⟩
  · obtain ⟨rfl, rfl⟩ := Prod.mk.inj ha
    refine Or.inr ⟨?_, ?_, hcalm⟩
    · change Except.ok (c.store.made name attributes tags) = _
      rw [hc]
      rfl
    · change c.store.withMade name attributes tags = _
      rw [hc]

/-- An update fails and leaves the store alone, or changes the attributes of a load balancer that is
there. -/
theorem update_cases {cloud cloud' : Cloud} {handle : Handle} {attributes : Attributes}
    {outcome : Except Fault Handle} (h : cloud.update handle attributes = (outcome, cloud')) :
    ((cloud.Calm → Ledger.get? handle.arn cloud.balancers = none) ∧
        (∃ fault, outcome = .error fault) ∧ cloud'.store = cloud.store ∧
        (cloud.Calm → cloud'.Calm)) ∨
      ∃ balancer, Ledger.get? handle.arn cloud.balancers = some balancer ∧
        outcome = .ok (attributes.change balancer) ∧
        cloud'.store = cloud.store.withBalancer handle.arn (attributes.change balancer) ∧
        (cloud.Calm → cloud'.Calm) := by
  rcases perform_cases h with ⟨hn, ⟨reason, rfl⟩, hs⟩ | ⟨c, hc, hcalm, ha⟩
  · exact Or.inl ⟨fun hcalm => absurd hcalm hn, ⟨_, rfl⟩, hs, fun hcalm => absurd hcalm hn⟩
  · -- a change is refused for a load balancer that is not there
    have hb : c.balancers = cloud.balancers := balancers_of_store hc
    cases hg : Ledger.get? handle.arn c.balancers with
    | none =>
      simp only [hg] at ha
      obtain ⟨rfl, rfl⟩ := Prod.mk.inj ha
      exact Or.inl ⟨fun _ => hb ▸ hg, ⟨_, rfl⟩, hc, hcalm⟩
    | some balancer =>
      simp only [hg] at ha
      obtain ⟨rfl, rfl⟩ := Prod.mk.inj ha
      refine Or.inr ⟨balancer, hb ▸ hg, rfl, ?_, hcalm⟩
      change c.store.withBalancer handle.arn (attributes.change balancer) = _
      rw [hc]

/-- A deletion is refused during an outage and leaves the store alone, or takes the load balancer
out of it. -/
theorem delete_cases {cloud cloud' : Cloud} {handle : Handle} {outcome : Except Fault Unit}
    (h : cloud.delete handle = (outcome, cloud')) :
    (¬ cloud.Calm ∧ (∃ fault, outcome = .error fault) ∧ cloud'.store = cloud.store) ∨
      (outcome = .ok () ∧ cloud'.store = cloud.store.withoutBalancer handle.arn ∧
        (cloud.Calm → cloud'.Calm)) := by
  rcases perform_cases h with ⟨hn, ⟨reason, rfl⟩, hs⟩ | ⟨c, hc, hcalm, ha⟩
  · exact Or.inl ⟨hn, ⟨_, rfl⟩, hs⟩
  · obtain ⟨rfl, rfl⟩ := Prod.mk.inj ha
    refine Or.inr ⟨rfl, ?_, hcalm⟩
    change c.store.withoutBalancer handle.arn = _
    rw [hc]

/-- How many targets a call may have depends on the store only. -/
theorem withinLimit_cases {cloud cloud' : Cloud} {instances : List Document}
    {act : Cloud → Reply Unit} {outcome : Except Fault Unit}
    (h : cloud.withinLimit instances act = (outcome, cloud')) :
    (cloud.exceedsLimit instances.length ≠ .ok false ∧ (∃ fault, outcome = .error fault) ∧
        cloud' = cloud) ∨
      act cloud = (outcome, cloud') := by
  unfold withinLimit at h
  split at h
  · rename_i fault hf
    obtain ⟨rfl, rfl⟩ := Prod.mk.inj h
    exact Or.inl ⟨by simp [hf], ⟨_, rfl⟩, rfl⟩
  · rename_i hf
    obtain ⟨rfl, rfl⟩ := Prod.mk.inj h
    exact Or.inl ⟨by simp [hf], ⟨_, rfl⟩, rfl⟩
  · exact Or.inr h

structure ChangesTargets (call : Cloud → Handle → List Document → Reply Unit)
    (change : List Document → List Document → List Document) : Prop where
  cases : ∀ {cloud cloud' : Cloud} {handle : Handle} {instances : List Document}
    {outcome : Except Fault Unit}, call cloud handle instances = (outcome, cloud') →
    ((cloud.Calm → cloud.exceedsLimit instances.length ≠ .ok false) ∧
        (∃ fault, outcome = .error fault) ∧ cloud'.store = cloud.store ∧
        (cloud.Calm → cloud'.Calm)) ∨
      (outcome = .ok () ∧
        cloud'.store = cloud.store.withTargets handle.arn (fun ts => change ts instances) ∧
        (cloud.Calm → cloud'.Calm))

/-- Registering and taking off are the same call but for their operation and their change. -/
theorem changesTargets_of_perform (operation : Operation)
    (change : List Document → List Document → List Document) :
    ChangesTargets (fun cloud handle instances =>
      cloud.perform operation handle.name fun cloud =>
        cloud.withinLimit instances fun cloud =>
          (.ok (), cloud.withTargets handle.arn (fun ts => change ts instances))) change where
  cases {_ _ handle instances _} h := by
    rcases perform_cases h with ⟨hn, ⟨reason, rfl⟩, hs⟩ | ⟨c, hc, hcalm, ha⟩
    · exact Or.inl ⟨fun hcalm => absurd hcalm hn, ⟨_, rfl⟩, hs, fun hcalm => absurd hcalm hn⟩
    · rcases withinLimit_cases ha with ⟨hl, hf, rfl⟩ | hact
      · refine Or.inl ⟨fun _ => ?_, hf, hc, hcalm⟩
        simpa only [exceedsLimit, limit_of_store hc] using hl
      · obtain ⟨rfl, rfl⟩ := Prod.mk.inj hact
        refine Or.inr ⟨rfl, ?_, hcalm⟩
        change c.store.withTargets handle.arn (fun ts => change ts instances) = _
        rw [hc]

theorem register_changesTargets : ChangesTargets register join :=
  changesTargets_of_perform .register join

theorem deregister_changesTargets : ChangesTargets deregister leave :=
  changesTargets_of_perform .deregister leave

/-- The targets of a load balancer that is there are given in order. -/
theorem targetsOf_of_some {cloud : Cloud} {arn : String} {targets : List Document}
    (h : Ledger.get? arn cloud.targets = some targets) :
    cloud.targetsOf (.string arn) = Document.sort targets := by
  have hkey : (Document.string arn).asKey = .ok (.string arn) := rfl
  have htext : (Document.string arn).text? = some arn := rfl
  rw [targetsOf, hkey, htext, Option.bind_some, h]
  rfl

/-- The targets of a load balancer that is not there cannot be listed. -/
theorem targetsOf_of_none {cloud : Cloud} {arn : String}
    (h : Ledger.get? arn cloud.targets = none) :
    cloud.targetsOf (.string arn) = .error (.loadBalancerMissing arn) := by
  have hkey : (Document.string arn).asKey = .ok (.string arn) := rfl
  have htext : (Document.string arn).text? = some arn := rfl
  rw [targetsOf, hkey, htext, Option.bind_some, h]
  rfl

end Cloud

end IngressControl
