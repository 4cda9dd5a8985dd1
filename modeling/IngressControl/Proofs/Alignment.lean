import IngressControl.Proofs.Mirror
import IngressControl.Proofs.Targets

/-! Aligning targets when no call fails. As long as the batches of the engine are within the limit
of the service, and its limit is not so large that batches cannot be cut, the handle ends up with
the wanted instances. -/

namespace IngressControl

open Document (Texts)

namespace Cloud

def Allows (cloud : Cloud) (most : Int) : Prop :=
  ∀ count : Nat, (count : Int) ≤ most → cloud.exceedsLimit count = .ok false

theorem allows_of_limit {cloud : Cloud} {limit most : Int} (hl : cloud.limit = .int limit)
    (hm : most ≤ limit) : cloud.Allows most := by
  intro count hc
  have hle : ¬ limit < count := by omega
  simp only [exceedsLimit, hl, Document.quantity?, Numeral.Quantity.less_ofInt, hle, decide_false]

theorem limit_of_effect {cloud effect : Cloud} (h : cloud.store = effect) :
    cloud.limit = effect.limit := by
  subst h
  rfl

theorem Allows.of_limit_eq {cloud cloud' : Cloud} {most : Int} (he : cloud'.limit = cloud.limit)
    (ha : cloud.Allows most) : cloud'.Allows most := by
  intro count hc
  rw [exceedsLimit, he]
  exact ha count hc

end Cloud

namespace Engine

structure Ready (cloud : Cloud) (most : Int) : Prop where
  calm : cloud.Calm
  allows : cloud.Allows most
  pos : 0 < most
  countable : most.toNat < Nat.pow 2 vanishingPower

theorem Ready.effect {cloud cloud' effect : Cloud} {most : Int} (hr : Ready cloud most)
    (hc : cloud'.Calm) (hs : cloud'.store = effect) (hl : effect.limit = cloud.limit) :
    Ready cloud' most :=
  ⟨hc, hr.allows.of_limit_eq ((Cloud.limit_of_effect hs).trans hl), hr.pos, hr.countable⟩

section Calls

variable {call : Cloud → Handle → List Document → Reply Unit}
  {change change' : List Document → List Document → List Document}
  {cloud : Cloud} {h : Handle} {most : Int}

/-- Calls for batches within the limit succeed one after the other. -/
theorem callBatches_of_ready (hcall : Cloud.ChangesTargets call change')
    (hchange : ∀ {instances batch}, Texts instances → Texts batch → Texts (change instances batch))
    {batches : List (List Document)}
    (hr : Ready cloud most) (hsize : ∀ batch ∈ batches, (batch.length : Int) ≤ most)
    (hb : ∀ batch ∈ batches, Texts batch) (hi : Texts h.instances) :
    ∃ h' cloud', callBatches call change cloud h batches = ⟨.ok (), h', cloud'⟩ ∧
      Ready cloud' most ∧ Texts h'.instances := by
  induction batches generalizing cloud h with
  | nil => exact ⟨h, cloud, rfl, hr, hi⟩
  | cons batch rest ih =>
    have hbatch := hb batch List.mem_cons_self
    simp only [callBatches]
    cases hc : call cloud h batch with
    | mk outcome cloud' =>
      rcases hcall.cases hc with ⟨hexceeds, -, -⟩ | ⟨rfl, hs, hcalm⟩
      · exact absurd (hr.allows _ (hsize batch List.mem_cons_self)) (hexceeds hr.calm)
      · obtain ⟨sorted, hsort, hmem⟩ := exists_sortedSet (hchange hi hbatch)
        have hsorted : Texts sorted := (hchange hi hbatch).mono fun d hd => (hmem d).mp hd
        simp only [hsort]
        exact ih (h := { h with instances := sorted }) (hr.effect (hcalm hr.calm) hs rfl)
          (fun b hm => hsize b (List.mem_cons_of_mem _ hm))
          (fun b hm => hb b (List.mem_cons_of_mem _ hm)) hsorted

theorem callInBatches_of_ready (hcall : Cloud.ChangesTargets call change')
    (hchange : ∀ {instances batch}, Texts instances → Texts batch → Texts (change instances batch))
    {instances : List Document} (hr : Ready cloud most) (ht : Texts instances)
    (hi : Texts h.instances) :
    ∃ h' cloud', callInBatches call change most cloud h instances = ⟨.ok (), h', cloud'⟩ ∧
      Ready cloud' most ∧ Texts h'.instances := by
  obtain ⟨batches, hb⟩ := exists_groupsForLimit instances hr.pos hr.countable
  have hflat := flatten_groupsForLimit hb
  have htexts : ∀ batch ∈ batches, Texts batch := fun batch hm => ht.mono fun d hd =>
    hflat ▸ List.mem_flatten.mpr ⟨batch, hm, hd⟩
  rw [callInBatches, hb]
  exact callBatches_of_ready hcall hchange hr
    (fun batch hm => length_le_of_mem_groupsForLimit hb hm) htexts hi

end Calls

/-- Between texts there is an alignment. -/
theorem exists_alignment {current wanted : List Document} (hc : Texts current)
    (hw : Texts wanted) :
    ∃ a, alignment current wanted = .ok a ∧ Texts a.toAdd ∧ Texts a.toRemove := by
  have hdistinct {ds : List Document} (hd : Texts ds) : Texts (distinct ds) :=
    hd.mono fun d h => (mem_distinct hd).mp h
  have hwithout {ds : List Document} (hd : Texts ds) (es : List Document) : Texts (without ds es) :=
    hd.mono fun d h => (List.mem_filter.mp h).1
  obtain ⟨toAdd, hadd, hpadd⟩ := (hwithout (hdistinct hw) (distinct current)).exists_sort
  obtain ⟨toRemove, hremove, hpremove⟩ := (hwithout (hdistinct hc) (distinct wanted)).exists_sort
  refine ⟨⟨toAdd, toRemove⟩, ?_, ?_, ?_⟩
  · simp only [alignment, setOf_eq hc, setOf_eq hw, hadd, hremove, Bind.bind, Except.bind]
    rfl
  · exact (hwithout (hdistinct hw) _).mono fun d hd => hpadd.mem_iff.mp hd
  · exact (hwithout (hdistinct hc) _).mono fun d hd => hpremove.mem_iff.mp hd

/-- On a service that is ready, the alignment of targets succeeds and reaches the wanted ones. -/
theorem alignTargets_of_ready {cloud : Cloud} {h : Handle} {most : Int} {wanted : List Document}
    (hr : Ready cloud most) (hi : Texts h.instances) (hw : Texts wanted) :
    ∃ changed h' cloud', alignTargets most cloud h wanted = ⟨.ok changed, h', cloud'⟩ ∧
      Ready cloud' most ∧ h'.bare = h.bare ∧ ∀ d, d ∈ h'.instances ↔ d ∈ wanted := by
  have hall : ∃ changed h' cloud', alignTargets most cloud h wanted = ⟨.ok changed, h', cloud'⟩ ∧
      Ready cloud' most ∧ Texts h'.instances := by
    obtain ⟨a, ha, hadd, hremove⟩ := exists_alignment hi hw
    unfold alignTargets
    simp only [ha]
    by_cases hn : a.isNothing = true
    · rw [if_pos hn]
      exact ⟨false, h, cloud, rfl, hr, hi⟩
    · rw [if_neg hn]
      obtain ⟨added, cloud₁, hfirst, hr₁, hi₁⟩ :=
        callInBatches_of_ready Cloud.register_changesTargets Texts.append hr hadd hi
      have hwithout {instances batch : List Document} (ht : Texts instances) (_ : Texts batch) :
          Texts (without instances batch) := ht.mono fun d hd => (List.mem_filter.mp hd).1
      obtain ⟨removed, cloud₂, hsecond, hr₂, hi₂⟩ :=
        callInBatches_of_ready Cloud.deregister_changesTargets hwithout hr₁ hremove hi₁
      refine ⟨true, removed, cloud₂, ?_, hr₂, hi₂⟩
      simp only [hfirst, hsecond]
      rfl
  obtain ⟨changed, h', cloud', halign, hr', hi'⟩ := hall
  obtain ⟨hbare, -, -, hmem⟩ := alignTargets_of_ok halign rfl
  exact ⟨changed, h', cloud', halign, hr', hbare, Document.mem_iff_of_elements hi' hw hmem⟩

/-- With a limit at which quotients vanish nothing can be registered. -/
theorem alignTargets_of_vanishing {cloud : Cloud} {h : Handle} {most : Int}
    {wanted : List Document} {a : Alignment} (ha : alignment h.instances wanted = .ok a)
    (hne : a.toAdd ≠ []) (hpos : 0 < most)
    (hv : a.toAdd.length * Nat.pow 2 vanishingPower ≤ most.toNat) :
    alignTargets most cloud h wanted = ⟨.error (.groupCount 0), h, cloud⟩ := by
  have hn : ¬ a.isNothing = true := by
    simp only [Alignment.isNothing, Bool.and_eq_true, List.isEmpty_iff]
    exact fun hn => hne hn.1
  unfold alignTargets
  simp only [ha, if_neg hn, callInBatches, groupsForLimit_eq_error hne hpos hv]

end Engine

end IngressControl
