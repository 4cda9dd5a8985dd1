import IngressControl.Proofs.Congruence
import IngressControl.Proofs.Legible
import IngressControl.Proofs.Settling

/-! What an assembly finds after a run. As long as no load balancer was given up, it finds exactly
what the engine has, for the same owners and with the same instances. -/

namespace IngressControl
open scoped List

structure Revives (x : Holding) (r : Resource) : Prop where
  owner : r.owner = x.owner
  tainted : r.tainted = false
  desired : r.desired = none
  handle : ∃ h, r.handle = some h ∧ x.handle.Alike h

structure Holding.Alike (x x' : Holding) : Prop where
  owner : x'.owner = x.owner
  handle : x.handle.Alike x'.handle

namespace Discovery

variable {context : Context} {cloud : Cloud} {hs : List Holding}

theorem perm_arns_ofCluster (hr : Recorded cloud hs) (hl : Legible context cloud hs) :
    arns hs ~ (cloud.ofCluster context.clusterName).map Handle.arn := by
  rw [List.perm_ext_iff_of_nodup hr.nodup (hr.sound.nodup_arns_ofCluster _)]
  intro arn
  constructor
  · intro hm
    obtain ⟨x, hx, rfl⟩ := List.mem_map.mp hm
    obtain ⟨b, hb, hname⟩ := hl.exists_balancer hr hx
    exact hname ▸ List.mem_map_of_mem hb
  · intro hm
    obtain ⟨b, hb, rfl⟩ := List.mem_map.mp hm
    obtain ⟨x, hx, hbare, -⟩ := hl.exists_holding hr hb
    exact List.mem_map.mpr ⟨x, hx, Handle.arn_of_bare hbare⟩

/-- What an assembly finds for a load balancer that the engine has is that load balancer. -/
theorem revives_of_finds (hm : Mirrored cloud hs) (hl : Legible context cloud hs) {x : Holding}
    (hx : x ∈ hs) {b : Handle} (hb : b ∈ cloud.ofCluster context.clusterName)
    (hname : x.handle.arn = b.arn) {r : Resource} (hf : Finds cloud b r) : Revives x r := by
  obtain ⟨-, targets, instances, hg, hp, rfl⟩ := hf
  obtain ⟨stored, hstored, hbare⟩ := hm.known x hx
  obtain rfl : stored = b := Option.some.inj
    ((hname ▸ hstored).symm.trans (hm.sound.get?_of_mem_ofCluster hb))
  have howner := ((hl.tagged x hx).of_tags (Handle.tags_of_bare hbare)).owner
  obtain ⟨targets', hg', hmem⟩ := hm.mirrors x hx
  obtain rfl := Option.some.inj (hg.symm.trans (hname ▸ hg'))
  refine ⟨howner, rfl, rfl, _, rfl, hbare, ?_, fun d => ?_⟩
  · exact (hm.texts _ _ hg).mono fun d hd => (hmem d).mp hd
  · exact hp.mem_iff.trans (hmem d).symm

/-- An assembly without outages finds one resource for each load balancer that the engine has, and
nothing else. -/
theorem exists_revived (hm : Mirrored cloud hs) (hl : Legible context cloud hs)
    (hc : cloud.Calm) : ∃ found cloud', assemble cloud context.clusterName = (.ok found, cloud') ∧
      cloud'.store = cloud.store ∧ found.Distinct ∧ Reordering Revives hs found := by
  have hr := hm.toRecorded
  obtain ⟨found, hfound⟩ : ∃ found, (assemble cloud context.clusterName).1 = .ok found := by
    refine exists_assemble hm.sound hc hl.apart (fun b hb => ?_) (fun b hb => ?_)
    · obtain ⟨x, hx, hbare, -⟩ := hl.exists_holding hr hb
      exact ((hl.tagged x hx).of_tags (Handle.tags_of_bare hbare.symm)).identified
    · obtain ⟨x, hx, hbare, -⟩ := hl.exists_holding hr hb
      obtain ⟨targets, hg, -⟩ := hm.mirrors x hx
      exact ⟨targets, Handle.arn_of_bare hbare ▸ hg, hm.texts _ targets hg⟩
  have htags : ∀ b ∈ cloud.ofCluster context.clusterName, (Ledger.keys b.tags).Nodup :=
    fun b hb => hm.sound.tags (hm.sound.get?_of_mem_ofCluster hb)
  obtain ⟨hstore, hfinds⟩ := assemble_cases htags hm.sound.listing
    (Prod.ext hfound rfl : assemble cloud context.clusterName =
      (.ok found, (assemble cloud context.clusterName).2))
  obtain ⟨hd, hf⟩ := hfinds found rfl
  -- each load balancer is matched by its name
  have hmatched := (Reordering.of_keys (f := fun x : Holding => x.handle.arn)
    (perm_arns_ofCluster hr hl)).imp_of_mem (S := fun x b => ∀ r, Finds cloud b r → Revives x r)
    fun x hx b hb hname r hfr => revives_of_finds hm hl hx hb hname hfr
  refine ⟨found, _, Prod.ext hfound rfl, hstore, hd, ?_⟩
  refine (hmatched.trans_forall₂ hf).imp_of_mem ?_
  rintro x - r - ⟨b, hrevives, hfr⟩
  exact hrevives r hfr

end Discovery

/-- What is revived is held again. -/
theorem Reordering.holdings_of_revives {hs : List Holding} {found : ResourceSet}
    (h : Reordering Revives hs found) : Reordering Holding.Alike hs (holdings found) := by
  obtain ⟨set, hset, hp⟩ := h
  refine ⟨holdings set, ?_, hp.flatMap_right _⟩
  clear hp
  induction hset with
  | nil => exact .nil
  | @cons x r hs set hfirst _ ih =>
    obtain ⟨h, hh, ha⟩ := hfirst.handle
    rw [holdings, List.flatMap_cons, hh]
    exact .cons ⟨hfirst.owner, ha⟩ ih

end IngressControl
