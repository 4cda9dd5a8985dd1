import IngressControl.Engine.Reconcile
import IngressControl.Proofs.Sorting
import IngressControl.Proofs.Store
import IngressControl.Proofs.Texts

/-! When a load balancer fits its spec. The comparison with a load balancer of the usual types
always has a result, it does not look at the targets, and it is settled by one change of the
attributes. -/

namespace IngressControl

open Document (Texts)

structure Handle.Typed (h : Handle) : Prop where
  subnets : Texts h.subnets
  securityGroups : Texts h.securityGroups
  nodePorts : ∃ ports : List Int, h.nodePorts = ports.map .int

namespace Document

theorem texts_map_string (texts : List String) : Texts (texts.map string) := by
  intro d hd
  obtain ⟨s, -, rfl⟩ := List.mem_map.mp hd
  exact ⟨s, rfl⟩

theorem sameItems_self {ds : List Document} (h : ∀ d ∈ ds, d.same d = true) :
    sameItems ds ds = true := by
  induction ds with
  | nil => simp [sameItems]
  | cons d ds ih =>
    simp only [sameItems, h d List.mem_cons_self, Bool.true_and]
    exact ih fun e he => h e (List.mem_cons_of_mem _ he)

theorem same_int (n : Int) : (int n).same (int n) = true := by
  simp [same, quantity?, Numeral.Quantity.same_ofInt]

end Document

theorem mapM_textOf (texts : List String) : (texts.map Document.string).mapM Digest.textOf =
    .ok texts := by
  induction texts with
  | nil => rfl
  | cons s texts ih =>
    rw [List.map_cons, List.mapM_cons, ih]
    rfl

/-- The digest of texts that stand in a load balancer is that of the texts. -/
theorem ofValues_map_string (texts : List String) :
    Digest.ofValues (texts.map .string) = .ok (Digest.ofCollection texts) := by
  simp only [Digest.ofValues, Document.sort_map_string, Bind.bind, Except.bind, mapM_textOf]
  rfl

theorem pairwise_sortPorts (ports : List Int) : (sortPorts ports).Pairwise (· ≤ ·) := by
  have hsorted : (sortPorts ports).Pairwise fun a b => decide (a ≤ b) = true := by
    refine List.pairwise_mergeSort (fun a b c hab hbc => ?_) (fun a b => ?_) ports
    · simp only [decide_eq_true_eq] at *
      omega
    · simp only [Bool.or_eq_true, decide_eq_true_eq]
      omega
  exact hsorted.imp fun h => by simpa using h

theorem nodup_eraseDups {α : Type} [BEq α] [LawfulBEq α] : ∀ xs : List α, xs.eraseDups.Nodup
  | [] => by simp
  | x :: xs => by
    rw [List.eraseDups_cons, List.nodup_cons]
    exact ⟨by simp [List.mem_eraseDups], nodup_eraseDups _⟩
termination_by xs => xs.length
decreasing_by
  have := List.length_filter_le (fun b => !b == x) xs
  simp only [List.length_cons]
  omega

namespace DesiredSpec

variable (spec : DesiredSpec)

/-- The node ports are those of the backends. -/
theorem mem_nodePorts (n : Int) : n ∈ spec.nodePorts ↔ ∃ b ∈ spec.backends, b.nodePort = n := by
  rw [nodePorts, sortPorts, List.mem_mergeSort, List.mem_eraseDups, List.mem_map]

/-- The node ports are in order, each once. -/
theorem ascending_nodePorts : spec.nodePorts.Pairwise (· < ·) := by
  have hnodup : spec.nodePorts.Nodup :=
    (List.mergeSort_perm _ _).nodup_iff.mpr (nodup_eraseDups _)
  exact (pairwise_sortPorts _).imp₂ (fun _ _ hle hne => Int.lt_iff_le_and_ne.mpr ⟨hle, hne⟩) hnodup

/-- The instances of a handle do not matter to the update of its attributes. -/
theorem needsUpdate_bare (h : Handle) : spec.needsUpdate h.bare = spec.needsUpdate h := rfl

/-- What fits a spec fits it whatever its targets are. -/
theorem needsUpdate_of_bare {h h' : Handle} (hb : h.bare = h'.bare) :
    spec.needsUpdate h = spec.needsUpdate h' := by
  rw [← needsUpdate_bare, hb, needsUpdate_bare]

theorem holdsAll_texts (texts : List String) :
    holdsAll ((sortTexts texts).map .string) (texts.map .string) = .ok true := by
  have hsame : Document.sameItems ((sortTexts texts).map .string)
      ((sortTexts texts).map .string) = true := Document.sameItems_self fun d hd => by
    obtain ⟨s, -, rfl⟩ := List.mem_map.mp hd
    simp
  rw [holdsAll, Document.sort_map_string, Except.map, hsame]

theorem holdsAll_nodePorts :
    holdsAll (spec.nodePorts.map .int) (spec.nodePorts.map .int) = .ok true := by
  have hsorted : spec.nodePorts.Pairwise (· ≤ ·) := pairwise_sortPorts _
  have hsame : Document.sameItems (spec.nodePorts.map .int) (spec.nodePorts.map .int) = true :=
    Document.sameItems_self fun d hd => by
      obtain ⟨n, -, rfl⟩ := List.mem_map.mp hd
      exact Document.same_int n
  rw [holdsAll, Document.sort_of_sorted hsorted, Except.map, hsame]

/-- Changing the attributes to those of a spec makes a load balancer fit. -/
theorem needsUpdate_change (h : Handle) :
    spec.needsUpdate ((Engine.attributes spec).change h) = .ok false := by
  have hscheme : (Document.string spec.scheme).same
      ((Engine.attributes spec).change h).scheme = true :=
    (Document.same_string_iff _ spec.scheme).mpr rfl
  have hsubnets : holdsAll ((sortTexts spec.subnets).map .string)
      ((Engine.attributes spec).change h).subnets = .ok true := holdsAll_texts spec.subnets
  have hgroups : ((Engine.attributes spec).change h).securityGroupsHash =
      .ok (Digest.ofCollection spec.securityGroups) := ofValues_map_string _
  have hports : holdsAll (spec.nodePorts.map .int)
      ((Engine.attributes spec).change h).nodePorts = .ok true := holdsAll_nodePorts spec
  simp only [needsUpdate, hscheme, hsubnets, hgroups, hports, Bind.bind, Except.bind]
  simp
  rfl

/-- The comparison with a load balancer of the usual types has a result. -/
theorem exists_needsUpdate {h : Handle} (ht : h.Typed) :
    ∃ needed, spec.needsUpdate h = .ok needed := by
  obtain ⟨sorted, hsubnets, -⟩ := ht.subnets.exists_sort
  obtain ⟨groups, hgroups⟩ := ht.securityGroups.exists_map
  obtain ⟨ports, hports⟩ := ht.nodePorts
  obtain ⟨sortedPorts, hsorted⟩ :=
    Document.exists_sort_of_comparable (Document.comparable_map_int ports)
  have hhash : h.securityGroupsHash = .ok (Digest.ofCollection groups) := by
    rw [Handle.securityGroupsHash, hgroups, ofValues_map_string]
  simp only [needsUpdate, holdsAll, hsubnets, hhash, hports, hsorted, Except.map, Bind.bind,
    Except.bind]
  split
  · exact ⟨_, rfl⟩
  · split
    · exact ⟨_, rfl⟩
    · split
      · exact ⟨_, rfl⟩
      · exact ⟨_, rfl⟩

end DesiredSpec

theorem typed_change (spec : DesiredSpec) (h : Handle) :
    ((Engine.attributes spec).change h).Typed where
  subnets := Document.texts_map_string spec.subnets
  securityGroups := Document.texts_map_string spec.securityGroups
  nodePorts := ⟨spec.nodePorts, rfl⟩

theorem Handle.Typed.of_bare {h h' : Handle} (hb : h'.bare = h.bare) (ht : h.Typed) :
    h'.Typed := by
  have hbare : h.bare.Typed := ⟨ht.subnets, ht.securityGroups, ht.nodePorts⟩
  rw [← hb] at hbare
  exact ⟨hbare.subnets, hbare.securityGroups, hbare.nodePorts⟩

end IngressControl
