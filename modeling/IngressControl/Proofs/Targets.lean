import IngressControl.Proofs.Moves

/-! What bringing targets in line leaves when it succeeds. Whatever the instances are, texts or
not, and however the calls were cut, the handle ends up with the wanted set of instances, and
nothing else of it changes. -/

namespace IngressControl
open scoped List
open Numeral (Quantity)
open Document (Keys SameSet element)

namespace Engine

variable {ds es : List Document}

theorem keys_of_setOf (h : setOf ds = .ok es) : Keys ds ∧ es = distinct ds := by
  obtain ⟨keys, hk, rfl⟩ := map_eq_ok h
  obtain ⟨rfl, hkeys⟩ := Document.keys_of_mapM hk
  exact ⟨hkeys, rfl⟩

theorem elements_distinct (hd : Keys ds) (e : Quantity ⊕ Document) :
    e ∈ (distinct ds).map element ↔ e ∈ ds.map element := by
  rw [distinct_eq_join, Cloud.elements_join .nil hd]
  simp

theorem keys_distinct (hd : Keys ds) : Keys (distinct ds) :=
  hd.mono fun _ h => (Cloud.mem_of_mem_join h).resolve_left List.not_mem_nil

theorem keys_without (hd : Keys ds) (others : List Document) : Keys (without ds others) :=
  hd.mono fun _ h => (List.mem_filter.mp h).1

/-- The sorted set has the elements of the list. -/
theorem elements_sortedSet (hd : Keys ds) (h : sortedSet ds = .ok es) :
    Keys es ∧ ∀ e, e ∈ es.map element ↔ e ∈ ds.map element := by
  have hp : es ~ distinct ds := Document.sort_perm h
  refine ⟨(keys_distinct hd).mono fun d hm => hp.mem_iff.mp hm, fun e => ?_⟩
  rw [(hp.map element).mem_iff, elements_distinct hd]

structure Combines (change : List Document → List Document → List Document)
    (combine : Prop → Prop → Prop) : Prop where
  keys : ∀ {instances batch}, Keys instances → Keys batch → Keys (change instances batch)
  elements : ∀ {instances batch}, Keys instances → Keys batch →
    ∀ e, e ∈ (change instances batch).map element ↔
      combine (e ∈ instances.map element) (e ∈ batch.map element)
  none : ∀ p, combine p False ↔ p
  again : ∀ p q q', combine (combine p q) q' ↔ combine p (q ∨ q')

theorem combines_append : Combines (fun instances batch => instances ++ batch) Or where
  keys hi hb := hi.append hb
  elements _ _ e := by rw [List.map_append, List.mem_append]
  none p := by tauto
  again p q q' := by tauto

theorem combines_without : Combines without (fun p q => p ∧ ¬ q) where
  keys hi _ := keys_without hi _
  elements _ hb e := Cloud.elements_leave hb e
  none p := by tauto
  again p q q' := by tauto

section Calls

variable {call : Cloud → Handle → List Document → Reply Unit}
  {change : List Document → List Document → List Document} {combine : Prop → Prop → Prop}

/-- Calls that all succeed change the instances of the handle batch by batch. -/
theorem callBatches_of_ok (hchange : Combines change combine) {batches : List (List Document)}
    (hb : ∀ batch ∈ batches, Keys batch) {cloud : Cloud} {h : Handle} (hi : Keys h.instances)
    {progress : Progress Unit} (hp : callBatches call change cloud h batches = progress)
    (hok : progress.outcome = .ok ()) :
    progress.handle.bare = h.bare ∧ Keys progress.handle.instances ∧
      ∀ e, e ∈ progress.handle.instances.map element ↔
        combine (e ∈ h.instances.map element) (e ∈ batches.flatten.map element) := by
  induction batches generalizing cloud h with
  | nil =>
    subst hp
    exact ⟨rfl, hi, fun e => by simp [callBatches, hchange.none]⟩
  | cons batch rest ih =>
    have hbatch := hb batch List.mem_cons_self
    simp only [callBatches] at hp
    split at hp
    · subst hp
      cases hok
    · split at hp
      · subst hp
        cases hok
      · rename_i instances hs
        obtain ⟨hkeys, hmem⟩ := elements_sortedSet (hchange.keys hi hbatch) hs
        obtain ⟨hbare, hkeys', hall⟩ := ih (fun b hm => hb b (List.mem_cons_of_mem _ hm))
          (h := { h with instances := instances }) hkeys hp
        refine ⟨hbare, hkeys', fun e => ?_⟩
        rw [hall e, List.flatten_cons, List.map_append, List.mem_append, ← hchange.again]
        simp only [hmem e, hchange.elements hi hbatch e]

theorem callInBatches_of_ok (hchange : Combines change combine) {limit : Int} {cloud : Cloud}
    {h : Handle} {instances : List Document} (hi : Keys h.instances) (hk : Keys instances)
    {progress : Progress Unit} (hp : callInBatches call change limit cloud h instances = progress)
    (hok : progress.outcome = .ok ()) :
    progress.handle.bare = h.bare ∧ Keys progress.handle.instances ∧
      ∀ e, e ∈ progress.handle.instances.map element ↔
        combine (e ∈ h.instances.map element) (e ∈ instances.map element) := by
  unfold callInBatches at hp
  split at hp
  · subst hp
    cases hok
  · rename_i batches hb
    have hflat := flatten_groupsForLimit hb
    have hkeys : ∀ batch ∈ batches, Keys batch := fun batch hm => hk.mono fun d hd =>
      hflat ▸ List.mem_flatten.mpr ⟨batch, hm, hd⟩
    have hall := callBatches_of_ok hchange hkeys hi hp hok
    rwa [hflat] at hall

end Calls

/-- What is to be added and what is to be removed are the two differences of the sets. -/
theorem alignment_of_ok {current wanted : List Document} {a : Alignment}
    (h : alignment current wanted = .ok a) :
    Keys current ∧ Keys wanted ∧ Keys a.toAdd ∧ Keys a.toRemove ∧
      (∀ e, e ∈ a.toAdd.map element ↔ e ∈ wanted.map element ∧ e ∉ current.map element) ∧
      (∀ e, e ∈ a.toRemove.map element ↔ e ∈ current.map element ∧ e ∉ wanted.map element) := by
  unfold alignment at h
  obtain ⟨current', hcurrent, h⟩ := bind_eq_ok h
  obtain ⟨wanted', hwanted, h⟩ := bind_eq_ok h
  obtain ⟨toAdd, hadd, h⟩ := bind_eq_ok h
  obtain ⟨toRemove, hremove, h⟩ := bind_eq_ok h
  obtain rfl := Except.ok.inj h
  obtain ⟨hc, rfl⟩ := keys_of_setOf hcurrent
  obtain ⟨hw, rfl⟩ := keys_of_setOf hwanted
  have hpadd := Document.sort_perm hadd
  have hpremove := Document.sort_perm hremove
  refine ⟨hc, hw, ?_, ?_, fun e => ?_, fun e => ?_⟩
  · exact (keys_without (keys_distinct hw) _).mono fun d hd => hpadd.mem_iff.mp hd
  · exact (keys_without (keys_distinct hc) _).mono fun d hd => hpremove.mem_iff.mp hd
  · rw [(hpadd.map element).mem_iff, without_eq_leave, Cloud.elements_leave (keys_distinct hc),
      elements_distinct hw, elements_distinct hc]
  · rw [(hpremove.map element).mem_iff, without_eq_leave, Cloud.elements_leave (keys_distinct hw),
      elements_distinct hw, elements_distinct hc]

/-- Once the targets are in line, the handle has the wanted instances. -/
theorem alignTargets_of_ok {limit : Int} {cloud : Cloud} {h : Handle} {wanted : List Document}
    {progress : Progress Bool} {changed : Bool} (hp : alignTargets limit cloud h wanted = progress)
    (hok : progress.outcome = .ok changed) :
    progress.handle.bare = h.bare ∧ Keys wanted ∧ Keys progress.handle.instances ∧
      ∀ e, e ∈ progress.handle.instances.map element ↔ e ∈ wanted.map element := by
  unfold alignTargets at hp
  split at hp
  · subst hp
    cases hok
  · rename_i a ha
    obtain ⟨hc, hw, hkadd, hkremove, hadd, hremove⟩ := alignment_of_ok ha
    split at hp
    · rename_i hn
      subst hp
      refine ⟨rfl, hw, hc, fun e => ?_⟩
      simp only [Alignment.isNothing, Bool.and_eq_true, List.isEmpty_iff] at hn
      have hnew := hadd e
      have hold := hremove e
      rw [hn.1, List.map_nil] at hnew
      rw [hn.2, List.map_nil] at hold
      simp only [List.not_mem_nil, false_iff] at hnew hold
      tauto
    · dsimp only at hp
      split at hp
      · subst hp
        cases hok
      · rename_i hadded
        subst hp
        obtain ⟨hbare₁, hk₁, hmem₁⟩ := callInBatches_of_ok combines_append hc hkadd rfl hadded
        obtain ⟨⟨⟩, hremoved, -⟩ := map_eq_ok hok
        obtain ⟨hbare₂, hk₂, hmem₂⟩ :=
          callInBatches_of_ok combines_without hk₁ hkremove rfl hremoved
        -- (current ∪ (wanted \ current)) \ (current \ wanted) is what is wanted
        refine ⟨hbare₂.trans hbare₁, hw, hk₂, fun e => ?_⟩
        rw [hmem₂ e, hmem₁ e, hadd e, hremove e]
        tauto

end Engine

end IngressControl
