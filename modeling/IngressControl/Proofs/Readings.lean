import IngressControl.Proofs.Assembled

/-! What an assembly concludes from what it reads. A reading is a described load balancer with the
answer to the call for its targets, which may be any list or any fault. An assembly succeeds exactly
if all readings make resources of different owners, and whatever else happens is one of its own
faults. -/

namespace IngressControl
open scoped List

def Fault.isBootstrap : Fault → Bool
  | loadBalancerListing _ => true
  | identityTags _ => true
  | description _ _ => true
  | assembly _ _ _ => true
  | doublyTagged _ _ _ => true
  | _ => false

namespace Discovery

structure Reading where
  description : Document
  answer : Except Fault (List Document)

namespace Reading

def arn (x : Reading) : Except Fault Document := x.description.require "LoadBalancerArn"

def outcome (x : Reading) : Except Fault Resource :=
  x.arn.bind fun arn => x.answer.bind (resourceOf x.description arn)

structure Makes (x : Reading) (r : Resource) : Prop where
  read : ∃ arn targets, x.arn = .ok arn ∧ x.answer = .ok targets ∧
    resourceOf x.description arn targets = .ok r
  identified : ∃ tags, Tags.ofDescription x.description = .ok tags ∧
    (tags.value namespaceTag).isVoid = false ∧ (tags.value ingressTag).isVoid = false ∧
    r.owner = .ofTags (tags.value namespaceTag) (tags.value ingressTag)
  named : ∃ name, x.description.field? "LoadBalancerName" = .ok (some name)
  untainted : r.tainted = false
  undesired : r.desired = none
  instances : ∃ h, r.handle = some h ∧ ∀ targets, x.answer = .ok targets →
    h.instances ~ targets ∧ (Document.Texts targets →
      ∃ texts : List String, h.instances = texts.map .string ∧ texts.Pairwise (· ≤ ·))

end Reading

theorem fieldOf_eq_ok {description value : Document} {label field : String}
    (h : Discovered.fieldOf description label field = .ok value) :
    description.field? field = .ok (some value) := by
  obtain ⟨found, hf, h⟩ := bind_eq_ok h
  cases found with
  | none => cases h
  | some v =>
    obtain rfl := Except.ok.inj h
    exact hf

structure Tells (description : Document) (targets : List Document) (d : Discovered) : Prop where
  identified : ∃ tags, Tags.ofDescription description = .ok tags ∧
    (tags.value namespaceTag).isVoid = false ∧ (tags.value ingressTag).isVoid = false ∧
    d.owner = .ofTags (tags.value namespaceTag) (tags.value ingressTag)
  named : description.field? "LoadBalancerName" = .ok (some d.balancer)
  instances : Document.sort targets = .ok d.instances

theorem tells_of_ofDescription {description : Document} {targets : List Document} {d : Discovered}
    (h : Discovered.ofDescription description targets = .ok d) : Tells description targets d := by
  obtain ⟨tags, htags, h⟩ := bind_eq_ok h
  obtain ⟨label, -, h⟩ := bind_eq_ok h
  dsimp only at h
  split at h
  · cases h
  · rename_i hvoid
    obtain ⟨arn, -, h⟩ := bind_eq_ok h
    obtain ⟨name, hname, h⟩ := bind_eq_ok h
    obtain ⟨dns, -, h⟩ := bind_eq_ok h
    obtain ⟨scheme, -, h⟩ := bind_eq_ok h
    obtain ⟨subnets, -, h⟩ := bind_eq_ok h
    obtain ⟨groups, -, h⟩ := bind_eq_ok h
    obtain ⟨ports, -, h⟩ := bind_eq_ok h
    obtain ⟨instances, hinstances, h⟩ := bind_eq_ok h
    obtain rfl := Except.ok.inj h
    rw [Bool.not_eq_true, Bool.or_eq_false_iff] at hvoid
    exact
      { identified := ⟨tags, htags, hvoid.1, hvoid.2, rfl⟩
        named := fieldOf_eq_ok hname
        instances := hinstances }

namespace Reading

variable {x : Reading} {r : Resource}

theorem makes_of_outcome (h : x.outcome = .ok r) : x.Makes r := by
  obtain ⟨arn, harn, h⟩ := bind_eq_ok h
  obtain ⟨targets, htargets, hread⟩ := bind_eq_ok h
  obtain ⟨d, hd, rfl⟩ := map_eq_ok hread
  have ht := tells_of_ofDescription hd
  refine
    { read := ⟨arn, targets, harn, htargets, hread⟩
      identified := ht.identified
      named := ⟨_, ht.named⟩
      untainted := rfl
      undesired := rfl
      instances := ⟨_, rfl, fun answered ha => ?_⟩ }
  obtain rfl := Except.ok.inj (htargets.symm.trans ha)
  refine ⟨Document.sort_perm ht.instances, fun htexts => ?_⟩
  obtain ⟨texts, rfl⟩ := htexts.exists_map
  have hsorted := ht.instances
  rw [Document.sort_map_string] at hsorted
  exact ⟨sortTexts texts, (Except.ok.inj hsorted).symm, pairwise_sortTexts texts⟩

/-- A reading gives an entry exactly if its answers make one. -/
theorem outcome_eq_ok_iff : x.outcome = .ok r ↔ x.Makes r := by
  refine ⟨makes_of_outcome, fun hm => ?_⟩
  obtain ⟨arn, targets, harn, htargets, hread⟩ := hm.read
  rw [outcome, harn, htargets]
  exact hread

end Reading

def assembled : Except Fault (List Reading) → Except Fault ResourceSet
  | .error fault => .error (.loadBalancerListing fault)
  | .ok readings => conclude (readings.map Reading.outcome)

section Assembled

variable {readings : List Reading} {found : ResourceSet}

theorem map_outcome_eq_iff :
    readings.map Reading.outcome = found.map .ok ↔ List.Forall₂ Reading.Makes readings found := by
  rw [← List.forall₂_eq_eq_eq, List.forall₂_map_left_iff, List.forall₂_map_right_iff]
  simp only [Reading.outcome_eq_ok_iff]

/-- A conclusion succeeds exactly if all readings make resources of different owners. -/
theorem conclude_eq_ok_iff : conclude (readings.map Reading.outcome) = .ok found ↔
    List.Forall₂ Reading.Makes readings found ∧ found.Distinct := by
  constructor
  · intro h
    obtain ⟨hall, hd⟩ := conclude_eq_ok h
    exact ⟨map_outcome_eq_iff.mp hall, hd⟩
  · rintro ⟨hall, hd⟩
    have hjoin : found.foldlM join [] = .ok ([] ++ found) := foldlM_join_of_distinct hd
    simpa [map_outcome_eq_iff.mpr hall, conclude] using hjoin

theorem isBootstrap_of_join {set : ResourceSet} {r : Resource} {fault : Fault}
    (h : join set r = .error fault) : fault.isBootstrap = true := by
  unfold join at h
  split at h
  · obtain rfl := Except.error.inj h
    rfl
  · cases h

theorem isBootstrap_of_foldlM_join {set kept : ResourceSet} {fault : Fault}
    (h : set.foldlM join kept = .error fault) : fault.isBootstrap = true := by
  induction set generalizing kept with
  | nil => cases h
  | cons r rest ih =>
    rw [List.foldlM_cons] at h
    rcases bind_eq_error h with hj | ⟨kept', -, h⟩
    · exact isBootstrap_of_join hj
    · exact ih h

/-- Whatever went wrong, the fault is one of an assembly. -/
theorem isBootstrap_of_assembled {listed : Except Fault (List Reading)} {fault : Fault}
    (h : assembled listed = .error fault) : fault.isBootstrap = true := by
  cases listed with
  | error f =>
    obtain rfl := Except.error.inj h
    rfl
  | ok readings =>
    unfold assembled conclude at h
    dsimp only at h
    split at h
    · obtain rfl := Except.error.inj h
      rfl
    · exact isBootstrap_of_foldlM_join h

end Assembled

end Discovery

end IngressControl
