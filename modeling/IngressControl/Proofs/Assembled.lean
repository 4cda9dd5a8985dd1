import IngressControl.Proofs.Described
import IngressControl.Proofs.Planning
import IngressControl.Proofs.Recorded

/-! What an assembly finds. An assembly that succeeds has one resource for every load balancer of
the cluster, each of another owner, and it fails for an owner that is tagged twice only if two load
balancers of the cluster name the same owner. -/

namespace IngressControl
open scoped List

namespace Discovery

def Identified (b : Handle) : Prop :=
  ((b.tag namespaceTag).isVoid || (b.tag ingressTag).isVoid) = false

/-- What an assembly makes of a load balancer whose tags name an ingress: its resource, with its
targets in some order. -/
def Finds (cloud : Cloud) (b : Handle) (r : Resource) : Prop :=
  Identified b ∧ ∃ targets instances, Ledger.get? b.arn cloud.targets = some targets ∧
    instances ~ targets ∧ r = found b instances

section Assembly

variable {cloud cloud' : Cloud} {cluster : String} {b : Handle} {bs : List Handle}

/-- A description leaves the store alone, and gives the targets in some order if it succeeds. -/
theorem describe_cases {outcome : Except Fault (List Document)}
    (h : cloud.describe (.string b.arn) = (outcome, cloud')) :
    cloud'.store = cloud.store ∧
      (∀ ts, outcome = .ok ts → ∃ targets, Ledger.get? b.arn cloud.targets = some targets ∧
        ts ~ targets) := by
  rcases Cloud.perform_cases h with ⟨-, ⟨reason, rfl⟩, hs⟩ | ⟨c, hs, -, ha⟩
  · exact ⟨hs, fun ts he => by cases he⟩
  · obtain ⟨rfl, rfl⟩ := Prod.mk.inj ha
    refine ⟨hs, fun ts he => ?_⟩
    cases hg : Ledger.get? b.arn c.targets with
    | none =>
      rw [Cloud.targetsOf_of_none hg] at he
      cases he
    | some targets =>
      rw [Cloud.targetsOf_of_some hg] at he
      exact ⟨targets, Cloud.targets_of_store hs ▸ hg, Document.sort_perm he⟩

/-- Describing and reading one load balancer leaves the store alone. -/
theorem assembleOne_cases {outcome : Except Fault Resource} (hn : (Ledger.keys b.tags).Nodup)
    (h : assembleOne cloud (Cloud.description b) = (outcome, cloud')) :
    cloud'.store = cloud.store ∧ ∀ r, outcome = .ok r → Finds cloud b r := by
  have harn : (Cloud.description b).require "LoadBalancerArn" = .ok (.string b.arn) := rfl
  simp only [assembleOne, harn] at h
  cases hd : cloud.describe (.string b.arn) with
  | mk described cloud'' =>
    rw [hd] at h
    obtain ⟨rfl, rfl⟩ := Prod.mk.inj h
    obtain ⟨hs, hts⟩ := describe_cases hd
    refine ⟨hs, fun r hr => ?_⟩
    obtain ⟨ts, rfl, hread⟩ := bind_eq_ok hr
    obtain ⟨targets, hg, hp⟩ := hts ts rfl
    have hread : resourceOf (Cloud.description b) (.string b.arn) ts = .ok r := hread
    rw [resourceOf_description hn] at hread
    split at hread
    · cases hread
    · rename_i hvoid
      obtain ⟨sorted, hsort, rfl⟩ := map_eq_ok hread
      refine ⟨Bool.eq_false_iff.mpr hvoid, targets, sorted, hg, ?_, rfl⟩
      exact (Document.sort_perm hsort).trans hp

theorem Finds.of_store (hs : cloud'.store = cloud.store) {r : Resource} (h : Finds cloud' b r) :
    Finds cloud b r := by
  obtain ⟨hid, targets, instances, hg, hp, rfl⟩ := h
  exact ⟨hid, targets, instances, Cloud.targets_of_store hs ▸ hg, hp, rfl⟩

/-- Assembly leaves the store alone, and every entry that it gives is found in the store. -/
theorem assembleAll_cases {outcomes : List (Except Fault Resource)}
    (hn : ∀ b ∈ bs, (Ledger.keys b.tags).Nodup)
    (h : assembleAll cloud (bs.map Cloud.description) = (outcomes, cloud')) :
    cloud'.store = cloud.store ∧
      List.Forall₂ (fun b outcome => ∀ r, outcome = .ok r → Finds cloud b r) bs outcomes := by
  induction bs generalizing cloud outcomes with
  | nil =>
    obtain ⟨rfl, rfl⟩ := Prod.mk.inj h
    exact ⟨rfl, .nil⟩
  | cons b rest ih =>
    simp only [List.map_cons, assembleAll] at h
    cases hone : assembleOne cloud (Cloud.description b) with
    | mk first cloud₁ =>
      cases hall : assembleAll cloud₁ (rest.map Cloud.description) with
      | mk others cloud₂ =>
        rw [hone] at h
        simp only [hall] at h
        obtain ⟨rfl, rfl⟩ := Prod.mk.inj h
        obtain ⟨hs₁, hfirst⟩ := assembleOne_cases (hn b List.mem_cons_self) hone
        obtain ⟨hs₂, hothers⟩ := ih (fun b hb => hn b (List.mem_cons_of_mem _ hb)) hall
        -- the others were read from the store that the first call left as it was
        refine ⟨hs₂.trans hs₁, .cons hfirst (hothers.imp fun _ _ hr r he => ?_)⟩
        exact (hr r he).of_store hs₁

/-- An entry joins a set at its end if no other entry has its owner. -/
theorem join_eq_ok {set set' : ResourceSet} {r : Resource} (h : join set r = .ok set') :
    set' = set ++ [r] ∧ ∀ a ∈ set, a.owner.same r.owner = false := by
  unfold join at h
  split at h
  · cases h
  · rename_i hnone
    obtain rfl := Except.ok.inj h
    rw [ResourceSet.find?, List.find?_eq_none] at hnone
    exact ⟨rfl, fun a ha => by simpa using hnone a ha⟩

/-- Entries that could all be joined have different owners. -/
theorem foldlM_join_eq_ok {kept set found : ResourceSet} (hk : kept.Distinct)
    (h : set.foldlM join kept = .ok found) : found = kept ++ set ∧ found.Distinct := by
  induction set generalizing kept with
  | nil =>
    obtain rfl := Except.ok.inj h
    exact ⟨(List.append_nil _).symm, hk⟩
  | cons r rest ih =>
    rw [List.foldlM_cons] at h
    obtain ⟨kept', hj, h⟩ := bind_eq_ok h
    obtain ⟨rfl, hnew⟩ := join_eq_ok hj
    have hd : ResourceSet.Distinct (kept ++ [r]) :=
      List.pairwise_append.mpr ⟨hk, List.pairwise_singleton _ _, by simpa using hnew⟩
    rw [List.append_cons]
    exact ih hd h

theorem successes_of_faults {outcomes : List (Except Fault Resource)} (h : faults outcomes = []) :
    outcomes = (successes outcomes).map .ok := by
  induction outcomes with
  | nil => rfl
  | cons outcome rest ih =>
    cases outcome with
    | error fault => simp [faults] at h
    | ok r =>
      have hrest : faults rest = [] := by simpa [faults] using h
      simpa [successes] using ih hrest

@[simp] theorem faults_map_ok (found : ResourceSet) : faults (found.map .ok) = [] := by
  rw [faults, List.filterMap_map, List.filterMap_eq_nil_iff]
  exact fun r _ => rfl

@[simp] theorem successes_map_ok (found : ResourceSet) : successes (found.map .ok) = found := by
  rw [successes, List.filterMap_map]
  exact List.filterMap_some

/-- A conclusion that succeeds has all resources, each of another owner. -/
theorem conclude_eq_ok {outcomes : List (Except Fault Resource)} {found : ResourceSet}
    (h : conclude outcomes = .ok found) : outcomes = found.map .ok ∧ found.Distinct := by
  unfold conclude at h
  split at h
  · cases h
  · rename_i hnone
    obtain ⟨hall, hd⟩ := foldlM_join_eq_ok List.Pairwise.nil h
    rw [List.nil_append] at hall
    exact ⟨hall ▸ successes_of_faults hnone, hd⟩

/-- An assembly concludes from what it reads of the load balancers of the cluster, unless they
cannot be listed. -/
theorem assemble_eq (cluster : String) (hl : cloud.listing = none) :
    (¬ cloud.Calm ∧ ∃ fault cloud', cloud'.store = cloud.store ∧
        assemble cloud cluster = (.error (.loadBalancerListing fault), cloud')) ∨
      ∃ c, c.store = cloud.store ∧ (cloud.Calm → c.Calm) ∧ assemble cloud cluster =
        (assembleAll c ((cloud.ofCluster cluster).map Cloud.description)).map conclude id := by
  unfold assemble
  cases hlist : cloud.list cluster with
  | mk listed cloud₁ =>
    rcases Cloud.perform_cases hlist with ⟨hn, ⟨reason, rfl⟩, hs⟩ | ⟨c, hs, hcalm, ha⟩
    · exact Or.inl ⟨hn, _, _, hs, rfl⟩
    · obtain ⟨rfl, rfl⟩ := Prod.mk.inj ha
      have hlisting : c.listing = none := (congrArg Cloud.listing hs).trans hl
      have hcluster : c.ofCluster cluster = cloud.ofCluster cluster := by
        rw [Cloud.ofCluster, Cloud.balancers_of_store hs, Cloud.ofCluster]
      rw [hlisting, Option.getD_none, hcluster]
      exact Or.inr ⟨c, hs, hcalm, rfl⟩

/-- An assembly leaves the store alone, and one that succeeds finds every load balancer of the
cluster. -/
theorem assemble_cases (hn : ∀ b ∈ cloud.ofCluster cluster, (Ledger.keys b.tags).Nodup)
    (hl : cloud.listing = none) {outcome : Except Fault ResourceSet}
    (h : assemble cloud cluster = (outcome, cloud')) :
    cloud'.store = cloud.store ∧ ∀ found, outcome = .ok found →
      found.Distinct ∧ List.Forall₂ (Finds cloud) (cloud.ofCluster cluster) found := by
  rcases assemble_eq cluster hl with ⟨-, fault, c, hs, ha⟩ | ⟨c, hs, -, ha⟩
  · obtain ⟨rfl, rfl⟩ := Prod.mk.inj (ha.symm.trans h)
    exact ⟨hs, fun found he => by cases he⟩
  · obtain ⟨rfl, rfl⟩ := Prod.mk.inj (ha.symm.trans h)
    obtain ⟨hs', hfinds⟩ := assembleAll_cases hn
      (rfl : assembleAll c ((cloud.ofCluster cluster).map Cloud.description) = (_, _))
    refine ⟨hs'.trans hs, fun found he => ?_⟩
    obtain ⟨hall, hd⟩ := conclude_eq_ok he
    rw [hall, List.forall₂_map_right_iff] at hfinds
    exact ⟨hd, hfinds.imp fun b r hr => (hr r rfl).of_store hs⟩

/-- Without outages an identified load balancer with targets is assembled. -/
theorem assembleOne_of_calm (hn : (Ledger.keys b.tags).Nodup) (hi : Identified b)
    (hc : cloud.Calm) {targets : List Document}
    (hg : Ledger.get? b.arn cloud.targets = some targets) (ht : Document.Texts targets) :
    ∃ r cloud', assembleOne cloud (Cloud.description b) = (.ok r, cloud') ∧ cloud'.Calm := by
  have harn : (Cloud.description b).require "LoadBalancerArn" = .ok (.string b.arn) := rfl
  obtain ⟨c, hs, hcalm, hd⟩ := Cloud.perform_of_calm hc .describe (.string b.arn) fun cloud =>
    (cloud.targetsOf (.string b.arn), cloud)
  -- the targets are sorted by the call, and once more when they are read
  obtain ⟨sorted, hsort, hp⟩ := ht.exists_sort
  obtain ⟨resorted, hresort, -⟩ := (ht.mono fun d hd => hp.mem_iff.mp hd).exists_sort
  have htargets : c.targetsOf (.string b.arn) = .ok sorted := by
    rw [Cloud.targetsOf_of_some (Cloud.targets_of_store hs ▸ hg), hsort]
  have hread : resourceOf (Cloud.description b) (.string b.arn) sorted =
      .ok (found b resorted) := by
    rw [resourceOf_description hn, if_neg (by rw [hi]; simp), hresort]
    rfl
  refine ⟨found b resorted, c, ?_, hcalm⟩
  simp only [assembleOne, harn]
  rw [Cloud.describe, hd]
  simp only [htargets]
  rw [← hread]
  rfl

theorem assembleAll_of_calm (hn : ∀ b ∈ bs, (Ledger.keys b.tags).Nodup)
    (hi : ∀ b ∈ bs, Identified b) (hc : cloud.Calm)
    (ht : ∀ b ∈ bs, ∃ targets, Ledger.get? b.arn cloud.targets = some targets ∧
      Document.Texts targets) :
    ∃ (rs : ResourceSet) (cloud' : Cloud),
      assembleAll cloud (bs.map Cloud.description) = (rs.map .ok, cloud') := by
  induction bs generalizing cloud with
  | nil => exact ⟨[], cloud, rfl⟩
  | cons b rest ih =>
    obtain ⟨targets, hg, htexts⟩ := ht b List.mem_cons_self
    obtain ⟨r, cloud₁, hone, hcalm⟩ := assembleOne_of_calm (hn b List.mem_cons_self)
      (hi b List.mem_cons_self) hc hg htexts
    have hs := (assembleOne_cases (hn b List.mem_cons_self) hone).1
    obtain ⟨rs, cloud₂, hall⟩ := ih (fun b hb => hn b (List.mem_cons_of_mem _ hb))
      (fun b hb => hi b (List.mem_cons_of_mem _ hb)) hcalm fun b hb => by
        rw [Cloud.targets_of_store hs]
        exact ht b (List.mem_cons_of_mem _ hb)
    refine ⟨r :: rs, cloud₂, ?_⟩
    simp only [List.map_cons, assembleAll, hone, hall]

/-- Entries with different owners can all be joined. -/
theorem foldlM_join_of_distinct {kept set : ResourceSet}
    (hd : ResourceSet.Distinct (kept ++ set)) : set.foldlM join kept = .ok (kept ++ set) := by
  induction set generalizing kept with
  | nil => rw [List.append_nil]; rfl
  | cons r rest ih =>
    have hnew : kept.find? r.owner = none := by
      rw [ResourceSet.find?, List.find?_eq_none]
      intro a ha
      have hne := (List.pairwise_append.mp hd).2.2 a ha r List.mem_cons_self
      simpa using hne
    have hjoin : join kept r = .ok (kept ++ [r]) := by rw [join, hnew]
    have hrest : ResourceSet.Distinct ((kept ++ [r]) ++ rest) := by simpa using hd
    calc (r :: rest).foldlM join kept
      _ = rest.foldlM join (kept ++ [r]) := by rw [List.foldlM_cons, hjoin]; rfl
      _ = .ok ((kept ++ [r]) ++ rest) := ih hrest
      _ = .ok (kept ++ r :: rest) := by rw [List.append_assoc, List.singleton_append]

/-- With different owners a conclusion fails only for faults in reading the load balancers. -/
theorem conclude_of_distinct {outcomes : List (Except Fault Resource)}
    (hd : (successes outcomes).Distinct) :
    conclude outcomes = .ok (successes outcomes) ∨
      (faults outcomes ≠ [] ∧
        ∃ failed total first, conclude outcomes = .error (.assembly failed total first)) := by
  unfold conclude
  cases hf : faults outcomes with
  | nil =>
    have hjoin : (successes outcomes).foldlM join [] = .ok ([] ++ successes outcomes) :=
      foldlM_join_of_distinct hd
    exact Or.inl hjoin
  | cons first others => exact Or.inr ⟨List.cons_ne_nil _ _, _, _, _, rfl⟩

/-- Load balancers of different owners give entries of different owners. -/
theorem distinct_successes {outcomes : List (Except Fault Resource)}
    (hd : bs.Pairwise fun b b' => b.owner.same b'.owner = false)
    (h : List.Forall₂ (fun b outcome => ∀ r, outcome = .ok r → Finds cloud b r) bs outcomes) :
    (successes outcomes).Distinct ∧ ∀ r ∈ successes outcomes, ∃ b ∈ bs, r.owner = b.owner := by
  induction h with
  | nil => exact ⟨List.Pairwise.nil, fun r hr => absurd hr List.not_mem_nil⟩
  | @cons b outcome rest outcomes hfirst _ ih =>
    obtain ⟨hb, hrest⟩ := List.pairwise_cons.mp hd
    obtain ⟨hdistinct, hmem⟩ := ih hrest
    cases outcome with
    | error fault =>
      refine ⟨hdistinct, fun r hr => ?_⟩
      obtain ⟨b', hb', ho⟩ := hmem r hr
      exact ⟨b', List.mem_cons_of_mem _ hb', ho⟩
    | ok first =>
      obtain ⟨-, _, _, -, -, rfl⟩ := hfirst first rfl
      refine ⟨List.pairwise_cons.mpr ⟨fun r hr => ?_, hdistinct⟩, fun r hr => ?_⟩
      · obtain ⟨b', hb', ho⟩ := hmem r hr
        rw [ho]
        exact hb b' hb'
      · rcases List.mem_cons.mp hr with rfl | hr
        · exact ⟨b, List.mem_cons_self, rfl⟩
        · obtain ⟨b', hb', ho⟩ := hmem r hr
          exact ⟨b', List.mem_cons_of_mem _ hb', ho⟩

/-- If the load balancers of a cluster name different owners, no assembly reports an owner that is
tagged twice. -/
theorem assemble_ne_doublyTagged (hsound : cloud.Sound)
    (hd : (cloud.ofCluster cluster).Pairwise fun b b' => b.owner.same b'.owner = false)
    (first second key : String) :
    (assemble cloud cluster).1 ≠ .error (.doublyTagged first second key) := by
  have hn : ∀ b ∈ cloud.ofCluster cluster, (Ledger.keys b.tags).Nodup :=
    fun b hb => hsound.tags (hsound.get?_of_mem_ofCluster hb)
  rcases assemble_eq cluster hsound.listing with ⟨-, fault, c, hs, ha⟩ | ⟨c, -, -, ha⟩
  · rw [ha]
    intro he
    cases he
  · have hfinds := (assembleAll_cases hn
      (rfl : assembleAll c ((cloud.ofCluster cluster).map Cloud.description) = (_, _))).2
    rw [ha]
    rcases conclude_of_distinct (distinct_successes hd hfinds).1 with hc | ⟨-, _, _, _, hc⟩
    · exact fun he => by cases hc.symm.trans he
    · exact fun he => by cases hc.symm.trans he

/-- If in addition every load balancer has targets that are texts and no call fails, an assembly
succeeds. -/
theorem exists_assemble (hsound : cloud.Sound) (hc : cloud.Calm)
    (hd : (cloud.ofCluster cluster).Pairwise fun b b' => b.owner.same b'.owner = false)
    (hi : ∀ b ∈ cloud.ofCluster cluster, Identified b)
    (ht : ∀ b ∈ cloud.ofCluster cluster, ∃ targets,
      Ledger.get? b.arn cloud.targets = some targets ∧ Document.Texts targets) :
    ∃ found, (assemble cloud cluster).1 = .ok found := by
  have hn : ∀ b ∈ cloud.ofCluster cluster, (Ledger.keys b.tags).Nodup :=
    fun b hb => hsound.tags (hsound.get?_of_mem_ofCluster hb)
  rcases assemble_eq cluster hsound.listing with ⟨hnot, -⟩ | ⟨c, hs, hcalm, ha⟩
  · exact absurd hc hnot
  · obtain ⟨rs, cloud', hall⟩ := assembleAll_of_calm hn hi (hcalm hc)
      (Cloud.targets_of_store hs ▸ ht)
    have hfinds := (assembleAll_cases hn hall).2
    rw [ha, hall]
    rcases conclude_of_distinct (distinct_successes hd hfinds).1 with hc | ⟨hf, -⟩
    · exact ⟨_, hc⟩
    · exact absurd (faults_map_ok rs) hf

structure Adopts (cloud : Cloud) (b : Handle) (x : Holding) : Prop where
  identified : Identified b
  owner : x.owner = b.owner
  bare : x.handle.bare = b.bare
  targets : ∃ targets, Ledger.get? b.arn cloud.targets = some targets ∧
    x.handle.instances ~ targets

theorem Adopts.arn {x : Holding} (h : Adopts cloud b x) : x.handle.arn = b.arn :=
  Handle.arn_of_bare h.bare

/-- Every load balancer that a found set holds was adopted from the store. -/
theorem exists_adopts {found : ResourceSet} (h : List.Forall₂ (Finds cloud) bs found) :
    ∀ x ∈ holdings found, ∃ b ∈ bs, Adopts cloud b x := by
  induction h with
  | nil => exact fun x hx => absurd hx List.not_mem_nil
  | cons hfirst _ ih =>
    obtain ⟨hid, targets, instances, hg, hp, rfl⟩ := hfirst
    intro x hx
    rcases List.mem_cons.mp hx with rfl | hx
    · exact ⟨_, List.mem_cons_self, hid, rfl, rfl, targets, hg, hp⟩
    · obtain ⟨b, hb, ha⟩ := ih x hx
      exact ⟨b, List.mem_cons_of_mem _ hb, ha⟩

theorem arns_finds {found : ResourceSet} (h : List.Forall₂ (Finds cloud) bs found) :
    arns (holdings found) = bs.map Handle.arn := by
  induction h with
  | nil => rfl
  | cons hfirst _ ih =>
    obtain ⟨-, targets, instances, -, -, rfl⟩ := hfirst
    exact congrArg (List.cons _) ih

/-- The set that is found in a sound and fresh service is recorded there. -/
theorem recorded_finds {found : ResourceSet} (hsound : cloud.Sound) (hfresh : cloud.Fresh)
    (h : List.Forall₂ (Finds cloud) (cloud.ofCluster cluster) found) :
    Recorded cloud (holdings found) where
  sound := hsound
  fresh := hfresh
  nodup := by
    rw [arns_finds h]
    exact hsound.nodup_arns_ofCluster cluster
  known x hx := by
    obtain ⟨b, hb, ha⟩ := exists_adopts h x hx
    rw [ha.arn]
    exact ⟨b, hsound.get?_of_mem_ofCluster hb, ha.bare.symm⟩
  targeted x hx := by
    obtain ⟨b, -, ha⟩ := exists_adopts h x hx
    obtain ⟨targets, hg, -⟩ := ha.targets
    rw [ha.arn, hg]
    rfl

end Assembly

end Discovery

end IngressControl
