import IngressControl.Proofs.Moves
import Mathlib.Data.List.Perm.Subperm

/-! The engine's handles against the ledger of the service. Every handle describes the load balancer
that is recorded under its name there, two handles never have the same name, and the names that the
service will give next are not taken. Every move keeps this, whether its call succeeds or fails. -/

namespace IngressControl
open scoped List

namespace Cloud

/-- The ledger of a service is in order: each load balancer stands there once, under its own name,
with each of its tags once, and listings are answered from it. -/
structure Sound (cloud : Cloud) : Prop where
  keys : (Ledger.keys cloud.balancers).Nodup
  arn : ∀ {arn : String} {b : Handle}, Ledger.get? arn cloud.balancers = some b → b.arn = arn
  tags : ∀ {arn : String} {b : Handle}, Ledger.get? arn cloud.balancers = some b →
    (Ledger.keys b.tags).Nodup
  listing : cloud.listing = none

/-- The service is not going to give this name to a load balancer. -/
def Spent (cloud : Cloud) (name : String) : Prop :=
  ∀ stem n, cloud.created < n → arn cloud.region stem n ≠ name

/-- No name that the service is going to give is taken. -/
def Fresh (cloud : Cloud) : Prop := ∀ name ∈ Ledger.keys cloud.balancers, cloud.Spent name

/-- Whether a service is sound depends on its store only. -/
theorem sound_store {cloud : Cloud} : cloud.store.Sound ↔ cloud.Sound :=
  ⟨fun h => ⟨h.keys, h.arn, h.tags, h.listing⟩, fun h => ⟨h.keys, h.arn, h.tags, h.listing⟩⟩

theorem Sound.of_store_eq {cloud cloud' : Cloud} (he : cloud'.store = cloud.store)
    (h : cloud.Sound) : cloud'.Sound := sound_store.mp (he ▸ sound_store.mpr h)

theorem fresh_store {cloud : Cloud} : cloud.store.Fresh ↔ cloud.Fresh := Iff.rfl

/-- The load balancers of a cluster are those in the store that its tag marks. -/
theorem mem_ofCluster {cloud : Cloud} {cluster : String} {b : Handle} :
    b ∈ cloud.ofCluster cluster ↔
      (∃ arn, (arn, b) ∈ cloud.balancers) ∧ belongsTo cluster b = true := by
  simp [ofCluster]

/-- A load balancer of the cluster is found under its own name. -/
theorem Sound.get?_of_mem_ofCluster {cloud : Cloud} {cluster : String} {b : Handle}
    (h : cloud.Sound) (hb : b ∈ cloud.ofCluster cluster) :
    Ledger.get? b.arn cloud.balancers = some b := by
  obtain ⟨⟨arn, hm⟩, -⟩ := mem_ofCluster.mp hb
  have hg := Ledger.get?_of_mem h.keys hm
  rwa [h.arn hg]

/-- No name comes twice among the load balancers of a cluster. -/
theorem Sound.nodup_arns_ofCluster {cloud : Cloud} (h : cloud.Sound) (cluster : String) :
    ((cloud.ofCluster cluster).map Handle.arn).Nodup := by
  have hkeys : cloud.balancers.map (fun entry => entry.2.arn) = Ledger.keys cloud.balancers :=
    List.map_congr_left fun entry he => h.arn (Ledger.get?_of_mem h.keys he)
  have hnodup := h.keys
  rw [← hkeys, ← Function.comp_def, ← List.map_map] at hnodup
  exact hnodup.sublist (List.filter_sublist.map _)

section Changes

variable {cloud : Cloud} {name arn : String} {attributes : Attributes}
  {tags : List (String × Document)}

/-- A new load balancer never gets a spent name. -/
theorem Spent.made_arn_ne (h : cloud.Spent arn) : (cloud.made name attributes tags).arn ≠ arn :=
  h name _ (Nat.lt_succ_self _)

/-- A new load balancer gets a name that is not taken. -/
theorem Fresh.made_arn (h : cloud.Fresh) :
    (cloud.made name attributes tags).arn ∉ Ledger.keys cloud.balancers :=
  fun hm => (h _ hm).made_arn_ne rfl

theorem Spent.withMade (h : cloud.Spent arn) : (cloud.withMade name attributes tags).Spent arn :=
  fun stem n hn => h stem n (Nat.lt_of_succ_lt hn)

/-- A service stays sound when a load balancer is put under its own name. -/
theorem Sound.put (h : cloud.Sound) {b : Handle} (ht : (Ledger.keys b.tags).Nodup)
    {cloud' : Cloud} (hb : cloud'.balancers = Ledger.put b.arn b cloud.balancers)
    (hl : cloud'.listing = cloud.listing) : cloud'.Sound where
  keys := hb ▸ Ledger.nodup_keys_put h.keys
  arn {key b'} hg := by
    rw [hb] at hg
    rcases Ledger.get?_put_eq_some_iff.mp hg with ⟨hk, rfl⟩ | ⟨-, hg⟩
    · exact hk.symm
    · exact h.arn hg
  tags {key b'} hg := by
    rw [hb] at hg
    rcases Ledger.get?_put_eq_some_iff.mp hg with ⟨-, rfl⟩ | ⟨-, hg⟩
    · exact ht
    · exact h.tags hg
  listing := hl.trans h.listing

theorem Sound.withMade (h : cloud.Sound) (ht : (Ledger.keys tags).Nodup) :
    (cloud.withMade name attributes tags).Sound :=
  h.put (b := cloud.made name attributes tags) ht rfl rfl

theorem Sound.withBalancer (h : cloud.Sound) {b : Handle}
    (hb : Ledger.get? arn cloud.balancers = some b) :
    (cloud.withBalancer arn (attributes.change b)).Sound := by
  have ht : (Ledger.keys b.tags).Nodup := h.tags hb
  obtain rfl := h.arn hb
  exact h.put (b := attributes.change b) (by simpa using ht) rfl rfl

theorem Sound.withoutBalancer (h : cloud.Sound) : (cloud.withoutBalancer arn).Sound where
  keys := Ledger.nodup_keys_erase h.keys
  arn hg := h.arn (Ledger.get?_erase_eq_some_iff.mp hg).2
  tags hg := h.tags (Ledger.get?_erase_eq_some_iff.mp hg).2
  listing := h.listing

/-- Two creations give different names. -/
theorem spent_withMade (cloud : Cloud) (name : String) (attributes : Attributes)
    (tags : List (String × Document)) :
    (cloud.withMade name attributes tags).Spent (cloud.made name attributes tags).arn := by
  intro stem n hn he
  have hnumber : n = cloud.created + 1 := eq_of_arn_eq he
  have hlater : cloud.created + 1 < n := hn
  omega

/-- So the next names stay free. -/
theorem Fresh.withMade (h : cloud.Fresh) : (cloud.withMade name attributes tags).Fresh := by
  intro key hk
  rcases Ledger.mem_keys_put.mp hk with rfl | hk
  · exact cloud.spent_withMade name attributes tags
  · exact (h key hk).withMade

theorem Fresh.withBalancer (h : cloud.Fresh) {b : Handle}
    (hb : Ledger.get? arn cloud.balancers = some b) (b' : Handle) :
    (cloud.withBalancer arn b').Fresh := by
  intro key hk
  rcases Ledger.mem_keys_put.mp hk with rfl | hk
  · exact h key (Ledger.mem_keys_of_get? hb)
  · exact h key hk

theorem Fresh.withoutBalancer (h : cloud.Fresh) : (cloud.withoutBalancer arn).Fresh :=
  fun key hk => h key (Ledger.keys_erase_subset hk)

end Changes

end Cloud

def arns (hs : List Holding) : List String := hs.map fun x => x.handle.arn

/-- What the service and the engine agree on, the targets apart. -/
structure Recorded (cloud : Cloud) (hs : List Holding) : Prop where
  sound : cloud.Sound
  fresh : cloud.Fresh
  nodup : (arns hs).Nodup
  known : ∀ x ∈ hs, ∃ b, Ledger.get? x.handle.arn cloud.balancers = some b ∧
    b.bare = x.handle.bare
  targeted : ∀ x ∈ hs, (Ledger.get? x.handle.arn cloud.targets).isSome

/-- Resources whose load balancers have different names have no load balancer in common. -/
theorem pairwise_of_nodup_arns {set : ResourceSet} (hn : (arns (holdings set)).Nodup) :
    set.Pairwise fun r r' => ∀ h h', r.handle = some h → r'.handle = some h' → h.arn ≠ h'.arn := by
  induction set with
  | nil => exact List.Pairwise.nil
  | cons first rest ih =>
    rw [holdings, List.flatMap_cons, ← holdings, arns, List.map_append, List.nodup_append] at hn
    obtain ⟨-, hrest, hdisjoint⟩ := hn
    refine List.pairwise_cons.mpr ⟨fun r hr h h' hh hh' => ?_, ih hrest⟩
    have hmem : h'.arn ∈ arns (holdings rest) :=
      List.mem_map.mpr ⟨⟨r.owner, h'⟩, mem_holdings.mpr ⟨r, hr, rfl, hh'⟩, rfl⟩
    exact hdisjoint h.arn (by simp [held, hh]) h'.arn hmem

namespace Recorded

variable {cloud : Cloud} {owner : Owner} {h h' : Handle} {others hs hs' : List Holding}

/-- The agreement is about the store of the cloud. -/
theorem of_store (hr : Recorded cloud.store hs) : Recorded cloud hs where
  sound := Cloud.sound_store.mp hr.sound
  fresh := Cloud.fresh_store.mp hr.fresh
  nodup := hr.nodup
  known := hr.known
  targeted := hr.targeted

/-- What is recorded depends on the store of the service only. -/
theorem to_store (hr : Recorded cloud hs) : Recorded cloud.store hs where
  sound := Cloud.sound_store.mpr hr.sound
  fresh := Cloud.fresh_store.mpr hr.fresh
  nodup := hr.nodup
  known := hr.known
  targeted := hr.targeted

theorem of_store_eq {cloud' : Cloud} (he : cloud'.store = cloud.store) (hr : Recorded cloud hs) :
    Recorded cloud' hs := .of_store (he ▸ hr.to_store)

/-- A part of the held load balancers, in any order, is recorded as well. -/
theorem subperm (hsub : hs' <+~ hs) (hr : Recorded cloud hs) : Recorded cloud hs' where
  sound := hr.sound
  fresh := hr.fresh
  nodup := by
    obtain ⟨mid, hperm, hmid⟩ := hsub
    exact (hperm.map _).nodup_iff.mp (hr.nodup.sublist (hmid.map _))
  known x hx := hr.known x (hsub.subset hx)
  targeted x hx := hr.targeted x (hsub.subset hx)

theorem arn_ne (hr : Recorded cloud (⟨owner, h⟩ :: others)) {x : Holding} (hx : x ∈ others) :
    x.handle.arn ≠ h.arn := by
  intro he
  have hm : x.handle.arn ∈ arns others := List.mem_map_of_mem hx
  rw [he] at hm
  exact (List.nodup_cons.mp hr.nodup).1 hm

theorem first (hr : Recorded cloud (⟨owner, h⟩ :: others)) :
    ∃ b, Ledger.get? h.arn cloud.balancers = some b ∧ b.bare = h.bare :=
  hr.known ⟨owner, h⟩ List.mem_cons_self

/-- A load balancer that was just made is recorded beside the others. -/
theorem withMade (hr : Recorded cloud hs) {name : String} {attributes : Cloud.Attributes}
    {tags : List (String × Document)} (ht : (Ledger.keys tags).Nodup) (owner : Owner) :
    Recorded (cloud.withMade name attributes tags)
      (⟨owner, cloud.made name attributes tags⟩ :: hs) := by
  -- every handle has a name that is taken, and the new name is not
  have hnew : ∀ x ∈ hs, x.handle.arn ≠ (cloud.made name attributes tags).arn := by
    intro x hx he
    obtain ⟨b, hb, -⟩ := hr.known x hx
    exact hr.fresh.made_arn (he ▸ Ledger.mem_keys_of_get? hb)
  refine ⟨hr.sound.withMade ht, hr.fresh.withMade, ?_, fun x hx => ?_, fun x hx => ?_⟩
  · refine List.nodup_cons.mpr ⟨fun hm => ?_, hr.nodup⟩
    obtain ⟨x, hx, he⟩ := List.mem_map.mp hm
    exact hnew x hx he
  · rcases List.mem_cons.mp hx with rfl | hx
    · exact ⟨_, by simp, rfl⟩
    · obtain ⟨b, hb, he⟩ := hr.known x hx
      exact ⟨b, by simp [hnew x hx, hb], he⟩
  · rcases List.mem_cons.mp hx with rfl | hx
    · simp
    · simpa [hnew x hx] using hr.targeted x hx

/-- A changed load balancer stays recorded with its new attributes. -/
theorem withBalancer (hr : Recorded cloud (⟨owner, h⟩ :: others)) {b : Handle}
    (hb : Ledger.get? h.arn cloud.balancers = some b) (attributes : Cloud.Attributes) :
    Recorded (cloud.withBalancer h.arn (attributes.change b))
      (⟨owner, { attributes.change b with instances := h.instances }⟩ :: others) := by
  have hname : b.arn = h.arn := hr.sound.arn hb
  refine ⟨hr.sound.withBalancer hb, hr.fresh.withBalancer hb _, ?_, fun x hx => ?_, fun x hx => ?_⟩
  · have hnodup := hr.nodup
    rw [arns, List.map_cons] at hnodup ⊢
    exact hname ▸ hnodup
  · rcases List.mem_cons.mp hx with rfl | hx
    · exact ⟨attributes.change b, by simp [hname], rfl⟩
    · obtain ⟨b', hb', he⟩ := hr.known x (List.mem_cons_of_mem _ hx)
      exact ⟨b', by simp [hr.arn_ne hx, hb'], he⟩
  · rcases List.mem_cons.mp hx with rfl | hx
    · simpa [hname] using hr.targeted ⟨owner, h⟩ List.mem_cons_self
    · simpa using hr.targeted x (List.mem_cons_of_mem _ hx)

/-- After a deletion the other load balancers are still recorded. -/
theorem withoutBalancer (hr : Recorded cloud (⟨owner, h⟩ :: others)) :
    Recorded (cloud.withoutBalancer h.arn) others where
  sound := hr.sound.withoutBalancer
  fresh := hr.fresh.withoutBalancer
  nodup := (List.nodup_cons.mp hr.nodup).2
  known x hx := by
    obtain ⟨b, hb, he⟩ := hr.known x (List.mem_cons_of_mem _ hx)
    exact ⟨b, by simp [hr.arn_ne hx, hb], he⟩
  targeted x hx := by simpa [hr.arn_ne hx] using hr.targeted x (List.mem_cons_of_mem _ hx)

/-- The targets of a load balancer and the instances of its handle may change at will. -/
theorem withTargets (hr : Recorded cloud (⟨owner, h⟩ :: others)) (hb : h'.bare = h.bare)
    (change : List Document → List Document) :
    Recorded (cloud.withTargets h.arn change) (⟨owner, h'⟩ :: others) := by
  have hname := Handle.arn_of_bare hb
  refine ⟨⟨hr.sound.keys, hr.sound.arn, hr.sound.tags, hr.sound.listing⟩, hr.fresh, ?_,
    fun x hx => ?_, fun x hx => ?_⟩
  · have hnodup := hr.nodup
    rw [arns, List.map_cons] at hnodup ⊢
    exact hname ▸ hnodup
  · rcases List.mem_cons.mp hx with rfl | hx
    · rw [hb, hname]
      exact hr.first
    · simpa using hr.known x (List.mem_cons_of_mem _ hx)
  · rcases List.mem_cons.mp hx with rfl | hx
    · simp [hname]
    · simpa [hr.arn_ne hx] using hr.targeted x (List.mem_cons_of_mem _ hx)

end Recorded

namespace Engine

/-- The engine sets no tag twice. -/
theorem nodup_keys_tags (context : Context) (owner : Owner) :
    (Ledger.keys (tags context owner)).Nodup := by
  change [clusterTag, namespaceTag, ingressTag].Nodup
  decide

/-- A move keeps the agreement, whatever other load balancers the engine has. -/
theorem Move.recorded {context : Context} {r : Resource} {a b : Stage} {others : List Holding}
    (hm : Move context r a b) (hr : Recorded a.cloud (held r.owner a.handle ++ others)) :
    Recorded b.cloud (held r.owner b.handle ++ others) := by
  have hstore := hr.to_store
  cases hm with
  | refused hs => exact .of_store (hs ▸ hstore)
  | create spec hd hs => exact .of_store (hs ▸ hstore.withMade (nodup_keys_tags _ _) _)
  | update spec hd hb hs => exact .of_store (hs ▸ hstore.withBalancer hb _)
  | delete hd hs => exact .of_store (hs ▸ hstore.withoutBalancer)
  | register spec batch hd hb hs => exact .of_store (hs ▸ hstore.withTargets (follow_bare _ _) _)
  | deregister batch hs => exact .of_store (hs ▸ hstore.withTargets (follow_bare _ _) _)

end Engine

end IngressControl
