import IngressControl.Proofs.Moves
import IngressControl.Proofs.Owned
import Mathlib.Data.List.Flatten
import Mathlib.Data.List.Perm.Subperm

/-! What the plan of a cycle takes over from the previous one. Every load balancer that the engine
had is planned for once, except those of tainted resources that are no longer declared. -/

namespace IngressControl
open scoped List

/-- No two resources have the same owner. -/
def ResourceSet.Distinct (set : ResourceSet) : Prop :=
  set.Pairwise fun a b => a.owner.same b.owner = false

namespace Engine

/-- An owner that one of the ingresses addressed to the engine has. -/
def Declared (context : Context) (sources : Sources) (owner : Owner) : Prop :=
  ∃ ingresses, sources.ingresses.list = .ok ingresses ∧
    ∃ ingress ∈ ingresses, ∃ id, owner? context ingress = some id ∧ owner = .ingress id

@[simp] theorem same_ingress_iff {owner : Owner} {id : Identity} :
    owner.same (.ingress id) = true ↔ owner = .ingress id := by
  cases owner <;> simp [Owner.same]

@[simp] theorem ingress_same_iff {owner : Owner} {id : Identity} :
    (Owner.ingress id).same owner = true ↔ owner = .ingress id := by
  cases owner <;> simp [Owner.same, eq_comm]

theorem owner_of_find? {set : ResourceSet} {id : Identity} {r : Resource}
    (h : set.find? (.ingress id) = some r) : r ∈ set ∧ r.owner = .ingress id := by
  rw [ResourceSet.find?] at h
  have hs : r.owner.same (.ingress id) = true := by simpa using List.find?_some h
  exact ⟨List.mem_of_find?_eq_some h, same_ingress_iff.mp hs⟩

/-- In a distinct set, the entry of an identity is the one that is found for it. -/
theorem find?_of_mem {set : ResourceSet} (hd : set.Distinct) {id : Identity} {r : Resource}
    (hr : r ∈ set) (ho : r.owner = .ingress id) : set.find? (.ingress id) = some r := by
  induction set with
  | nil => cases hr
  | cons first rest ih =>
    obtain ⟨hfirst, hrest⟩ := List.pairwise_cons.mp hd
    rw [ResourceSet.find?, List.find?_cons]
    rcases List.mem_cons.mp hr with rfl | hr
    · rw [same_ingress_iff.mpr ho]
    · have hne := hfirst r hr
      rw [ho] at hne
      rw [hne]
      exact ih hrest hr

/-- In a set of different owners the resource of an ingress is the only one of that ingress. -/
theorem filter_of_mem {set : ResourceSet} (hd : set.Distinct) {id : Identity} {r : Resource}
    (hr : r ∈ set) (ho : r.owner = .ingress id) :
    (set.filter fun r => r.owner.same (.ingress id)) = [r] := by
  induction set with
  | nil => cases hr
  | cons first rest ih =>
    obtain ⟨hfirst, hrest⟩ := List.pairwise_cons.mp hd
    rcases List.mem_cons.mp hr with rfl | hr
    · have hself : r.owner.same (.ingress id) = true := same_ingress_iff.mpr ho
      have hothers : (rest.filter fun r => r.owner.same (.ingress id)) = [] := by
        apply List.filter_eq_nil_iff.mpr
        intro r' hr' hs
        have hne := hfirst r' hr'
        rw [ho, same_ingress_iff.mp hs, Owner.same] at hne
        simp at hne
      simp only [List.filter_cons, hself, hothers, if_true]
    · have hne := hfirst r hr
      rw [ho] at hne
      simp only [List.filter_cons, hne, Bool.false_eq_true, if_false]
      exact ih hrest hr

section Plan

variable {context : Context} {sources : Sources} {services : Source}
  {ingresses instances : List Document} {previous planned : ResourceSet}

@[simp] theorem owner_resourceOf (id : Identity) (ingress : Document) :
    (resourceOf services instances previous id ingress).owner = .ingress id := by
  unfold resourceOf
  split <;> rfl

@[simp] theorem handle_resourceOf (id : Identity) (ingress : Document) :
    (resourceOf services instances previous id ingress).handle =
      (previous.find? (.ingress id)).bind Resource.handle := by
  unfold resourceOf
  split <;> rfl

/-- An ingress with a specification becomes an untainted entry that wants it. -/
theorem resourceOf_of_ok {id : Identity} {ingress : Document} {spec : DesiredSpec}
    (h : Ingress.desiredSpec ingress (Service.nodePort services) instances = .ok spec) :
    resourceOf services instances previous id ingress =
      plannedResource id (previous.find? (.ingress id)) spec := by
  rw [resourceOf, h]

def declaredBy (context : Context) (services : Source) (previous : ResourceSet)
    (ingresses instances : List Document) : ResourceSet :=
  (owned context ingresses).map fun entry =>
    resourceOf services instances previous entry.1 entry.2

/-- A plan that succeeds consists of the declared resources and those to be deleted. -/
theorem plan_cases (h : plan context sources previous = .ok planned) :
    ∃ ingresses instances, sources.ingresses.list = .ok ingresses ∧
      Node.listInstances sources.nodes = .ok instances ∧
      planned = declaredBy context sources.services previous ingresses instances ++
        orphans previous (declaredBy context sources.services previous ingresses instances) := by
  obtain ⟨set, hset, rfl⟩ := map_eq_ok h
  unfold declared at hset
  split at hset
  · cases hset
  · rename_i ingresses hi
    split at hset
    · cases hset
    · rename_i instances hn
      obtain rfl := Except.ok.inj hset
      exact ⟨ingresses, instances, hi, hn, rfl⟩

/-- The declared owners are the identities of the listed ingresses. -/
theorem declared_iff_of_list {owner : Owner} (h : sources.ingresses.list = .ok ingresses) :
    Declared context sources owner ↔
      ∃ id ∈ (owned context ingresses).map Prod.fst, owner = .ingress id := by
  constructor
  · rintro ⟨ingresses', hl, ingress, hm, id, ho, rfl⟩
    obtain rfl := Except.ok.inj (hl.symm.trans h)
    exact ⟨id, mem_owned_identities.mpr ⟨ingress, hm, ho⟩, rfl⟩
  · rintro ⟨id, hid, rfl⟩
    obtain ⟨ingress, hm, ho⟩ := mem_owned_identities.mp hid
    exact ⟨ingresses, h, ingress, hm, id, ho, rfl⟩

/-- An owner is found among the declared resources if one of its ingresses is addressed to the
engine. -/
theorem isSome_find?_declaredBy {owner : Owner} :
    ((declaredBy context services previous ingresses instances).find? owner).isSome ↔
      ∃ id ∈ (owned context ingresses).map Prod.fst, owner = .ingress id := by
  rw [ResourceSet.find?, List.find?_isSome]
  constructor
  · rintro ⟨r, hr, hs⟩
    obtain ⟨⟨id, ingress⟩, he, rfl⟩ := List.mem_map.mp hr
    rw [owner_resourceOf, ingress_same_iff] at hs
    exact ⟨id, List.mem_map_of_mem he, hs⟩
  · rintro ⟨id, hid, rfl⟩
    obtain ⟨⟨id, ingress⟩, he, rfl⟩ := List.mem_map.mp hid
    refine ⟨_, List.mem_map_of_mem he, ?_⟩
    simp

theorem mem_orphans {declared : ResourceSet} {r : Resource} :
    r ∈ orphans previous declared ↔
      ∃ r' ∈ previous, isOrphan declared r' = true ∧ r'.stripDesired = r := by
  simp only [orphans, List.mem_map, List.mem_filter, and_assoc]

/-- An orphan is untainted, undeclared, and still has a load balancer. -/
theorem isOrphan_iff {declared : ResourceSet} {r : Resource} : isOrphan declared r = true ↔
    r.tainted = false ∧ ¬ (declared.find? r.owner).isSome ∧ r.handle.isSome := by
  simp [isOrphan, and_assoc]

theorem holdings_orphans (declared : ResourceSet) :
    holdings (orphans previous declared) = holdings (previous.filter (isOrphan declared)) := by
  rw [holdings, orphans, List.flatMap_map]
  rfl

/-- The declared entries hold what the previous entries of their identities held. -/
theorem holdings_declaredBy :
    holdings (declaredBy context services previous ingresses instances) =
      holdings ((owned context ingresses).filterMap fun entry =>
        previous.find? (.ingress entry.1)) := by
  unfold declaredBy
  generalize owned context ingresses = entries
  induction entries with
  | nil => rfl
  | cons entry rest ih =>
    rw [List.map_cons, holdings, List.flatMap_cons, ← holdings, ih, owner_resourceOf,
      handle_resourceOf]
    cases hf : previous.find? (.ingress entry.1) with
    | none => simp [hf, held]
    | some r =>
      have ho := (owner_of_find? hf).2
      simp [hf, holdings, ho]

theorem holdings_subperm {set set' : ResourceSet} (h : set <+~ set') :
    holdings set <+~ holdings set' := by
  obtain ⟨mid, hp, hs⟩ := h
  exact ⟨holdings mid, hp.flatMap_right _, hs.flatMap _⟩

/-- No load balancer is planned for twice, and none that the engine did not have. -/
theorem holdings_plan_subperm (h : plan context sources previous = .ok planned) :
    holdings planned <+~ holdings previous := by
  obtain ⟨ingresses, instances, -, -, rfl⟩ := plan_cases h
  rw [holdings_append, holdings_declaredBy, holdings_orphans, ← holdings_append]
  refine holdings_subperm ?_
  set set := declaredBy context sources.services previous ingresses instances with hset
  -- the resources found for the declared identities, and the others, are two parts of the set
  have hnodup : ((owned context ingresses).filterMap fun entry =>
      previous.find? (.ingress entry.1)).Nodup := by
    have hids : (owned context ingresses).Pairwise fun a b => a.1 ≠ b.1 :=
      List.pairwise_map.mp nodup_owned
    refine hids.filterMap _ fun a b hne r hr r' hr' he => hne ?_
    have ha := (owner_of_find? hr).2
    have hb := (owner_of_find? hr').2
    rw [he, hb] at ha
    exact (Owner.ingress.inj ha).symm
  have hfound : ((owned context ingresses).filterMap fun entry =>
      previous.find? (.ingress entry.1)) <+~
        previous.filter fun r => (set.find? r.owner).isSome := by
    apply List.subperm_of_subset hnodup
    intro r hr
    obtain ⟨entry, he, hf⟩ := List.mem_filterMap.mp hr
    have ho := (owner_of_find? hf).2
    refine List.mem_filter.mpr ⟨List.mem_of_find?_eq_some hf, ?_⟩
    exact isSome_find?_declaredBy.mpr ⟨entry.1, List.mem_map_of_mem he, ho⟩
  have hothers : previous.filter (isOrphan set) <+
      previous.filter fun r => !(set.find? r.owner).isSome := by
    apply List.monotone_filter_right previous
    intro r hr
    simpa using (isOrphan_iff.mp hr).2.1
  exact (hfound.append hothers.subperm).trans (List.filter_append_perm _ previous).subperm

/-- The plan leaves out only the load balancers of tainted resources that are not declared. -/
theorem mem_holdings_plan (hd : previous.Distinct)
    (h : plan context sources previous = .ok planned) {r : Resource} (hr : r ∈ previous)
    {handle : Handle} (hh : r.handle = some handle) :
    ⟨r.owner, handle⟩ ∈ holdings planned ∨
      r.tainted = true ∧ ¬ Declared context sources r.owner := by
  obtain ⟨ingresses, instances, hl, -, rfl⟩ := plan_cases h
  rw [holdings_append, List.mem_append, holdings_declaredBy, holdings_orphans,
    declared_iff_of_list hl]
  by_cases hdecl : ∃ id ∈ (owned context ingresses).map Prod.fst, r.owner = .ingress id
  · obtain ⟨id, hid, ho⟩ := hdecl
    obtain ⟨entry, he, rfl⟩ := List.mem_map.mp hid
    refine Or.inl (Or.inl (mem_holdings.mpr ⟨r, ?_, rfl, hh⟩))
    exact List.mem_filterMap.mpr ⟨entry, he, find?_of_mem hd hr ho⟩
  · -- what is not declared is deleted, unless it is tainted
    by_cases ht : r.tainted = true
    · exact Or.inr ⟨ht, hdecl⟩
    · refine Or.inl (Or.inr (mem_holdings.mpr ⟨r, ?_, rfl, hh⟩))
      refine List.mem_filter.mpr ⟨hr, isOrphan_iff.mpr ⟨by simpa using ht, ?_, by simp [hh]⟩⟩
      rwa [isSome_find?_declaredBy]

/-- No identity is declared twice. -/
theorem distinct_declaredBy :
    (declaredBy context services previous ingresses instances).Distinct := by
  have hids : (owned context ingresses).Pairwise fun a b => a.1 ≠ b.1 :=
    List.pairwise_map.mp nodup_owned
  refine List.pairwise_map.mpr (hids.imp fun hne => ?_)
  rw [owner_resourceOf, owner_resourceOf, ← Bool.not_eq_true, Owner.same_ingress]
  exact hne

/-- A plan has one resource for each owner, if the previous set has. -/
theorem distinct_plan (hd : previous.Distinct) (h : plan context sources previous = .ok planned) :
    planned.Distinct := by
  obtain ⟨ingresses, instances, -, -, rfl⟩ := plan_cases h
  refine List.pairwise_append.mpr ⟨distinct_declaredBy, ?_, fun a ha b hb => ?_⟩
  · exact List.pairwise_map.mpr (hd.filter _)
  · -- an orphan was looked for among the declared resources, in vain
    obtain ⟨r, -, hr, rfl⟩ := mem_orphans.mp hb
    have hnone := (isOrphan_iff.mp hr).2.1
    rw [ResourceSet.find?, List.find?_isSome] at hnone
    exact Bool.not_eq_true _ ▸ fun hs => hnone ⟨a, ha, hs⟩

/-- The resource that is planned for an ingress whose spec can be built. -/
theorem exists_planned (h : plan context sources previous = .ok planned)
    {ingresses instances : List Document} (hl : sources.ingresses.list = .ok ingresses)
    (hn : Node.listInstances sources.nodes = .ok instances) {id : Identity} {ingress : Document}
    (hf : ingresses.find? (fun i => owner? context i == some id) = some ingress)
    {spec : DesiredSpec}
    (hs : Ingress.desiredSpec ingress (Service.nodePort sources.services) instances = .ok spec) :
    ∃ r ∈ planned, r.owner = .ingress id ∧ r.tainted = false ∧ r.desired = some spec := by
  obtain ⟨ingresses', instances', hl', hn', rfl⟩ := plan_cases h
  obtain rfl := Except.ok.inj (hl.symm.trans hl')
  obtain rfl := Except.ok.inj (hn.symm.trans hn')
  have hmem : plannedResource id (previous.find? (.ingress id)) spec ∈
      declaredBy context sources.services previous ingresses instances := by
    rw [← resourceOf_of_ok hs]
    exact List.mem_map_of_mem (f := fun entry : Identity × Document =>
      resourceOf sources.services instances previous entry.1 entry.2) (mem_owned.mpr hf)
  exact ⟨_, List.mem_append_left _ hmem, rfl, rfl, rfl⟩

/-- What is planned for a previous resource that is not tainted and no longer declared. -/
theorem exists_orphan (h : plan context sources previous = .ok planned) (hr : r ∈ previous)
    (ht : r.tainted = false) (hn : ¬ Declared context sources r.owner) {handle : Handle}
    (hh : r.handle = some handle) : r.stripDesired ∈ planned := by
  obtain ⟨ingresses, instances, hl, -, rfl⟩ := plan_cases h
  rw [declared_iff_of_list hl] at hn
  refine List.mem_append_right _ (mem_orphans.mpr ⟨r, hr, isOrphan_iff.mpr ⟨ht, ?_, ?_⟩, rfl⟩)
  · rwa [isSome_find?_declaredBy]
  · rw [hh]
    rfl

/-- What is planned is declared, or is a left-over that nothing wants. -/
theorem declared_or_left_over (h : plan context sources previous = .ok planned)
    (hr : r ∈ planned) :
    Declared context sources r.owner ∨ r.desired = none ∧ r.tainted = false := by
  obtain ⟨ingresses, instances, hl, -, rfl⟩ := plan_cases h
  rcases List.mem_append.mp hr with hr | hr
  · obtain ⟨entry, he, rfl⟩ := List.mem_map.mp hr
    refine Or.inl ((declared_iff_of_list hl).mpr ⟨entry.1, List.mem_map_of_mem he, ?_⟩)
    exact owner_resourceOf _ _
  · obtain ⟨r', -, -, rfl⟩ := mem_orphans.mp hr
    exact Or.inr ⟨rfl, rfl⟩

/-- A specification has the listed instances. -/
theorem instances_of_desiredSpec {ingress : Document}
    {resolve : String → Document → Except Fault Int} {spec : DesiredSpec}
    (h : Ingress.desiredSpec ingress resolve instances = .ok spec) :
    spec.instances = instances := by
  unfold Ingress.desiredSpec at h
  dsimp only at h
  cases hv : Schema.ingressReport ingress with
  | some violations =>
    rw [hv] at h
    cases h
  | none =>
    rw [hv] at h
    dsimp only at h
    split at h
    · cases h
    · obtain ⟨routes, -, h⟩ := bind_eq_ok h
      obtain ⟨backends, -, h⟩ := bind_eq_ok h
      split at h
      · cases h
      · obtain rfl := Except.ok.inj h
        rfl

/-- What a resource wants that is not tainted: nothing if it is to be deleted, else a load balancer
with the instances of the nodes as targets. -/
theorem instances_of_mem_plan (h : plan context sources previous = .ok planned) :
    ∃ instances, Node.listInstances sources.nodes = .ok instances ∧
      ∀ r ∈ planned, r.tainted = false → ∀ spec, r.desired = some spec →
        spec.instances = instances := by
  obtain ⟨ingresses, instances, -, hn, rfl⟩ := plan_cases h
  refine ⟨instances, hn, fun r hr ht spec hs => ?_⟩
  rcases List.mem_append.mp hr with hr | hr
  · obtain ⟨entry, -, rfl⟩ := List.mem_map.mp hr
    cases hd : Ingress.desiredSpec entry.2 (Service.nodePort sources.services) instances with
    | ok desired =>
      rw [resourceOf_of_ok hd] at hs
      obtain rfl := Option.some.inj hs
      exact instances_of_desiredSpec hd
    | error fault =>
      simp only [resourceOf, hd] at ht
      cases ht
  · obtain ⟨r', -, -, rfl⟩ := mem_orphans.mp hr
    cases hs

/-- Only resources of ingresses that are addressed to the engine want anything, of those that are
not tainted. -/
theorem owner_of_mem_plan (h : plan context sources previous = .ok planned) {r : Resource}
    (hr : r ∈ planned) {spec : DesiredSpec} (hs : r.desired = some spec) :
    ∃ ingress id, owner? context ingress = some id ∧ r.owner = .ingress id := by
  obtain ⟨ingresses, instances, -, -, rfl⟩ := plan_cases h
  rcases List.mem_append.mp hr with hr | hr
  · obtain ⟨entry, he, rfl⟩ := List.mem_map.mp hr
    obtain ⟨ingress, -, ho⟩ := mem_owned_identities.mp (List.mem_map_of_mem he)
    exact ⟨ingress, entry.1, ho, owner_resourceOf _ _⟩
  · obtain ⟨r', -, -, rfl⟩ := mem_orphans.mp hr
    cases hs

end Plan

end Engine

end IngressControl
