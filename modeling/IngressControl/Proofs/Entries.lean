import IngressControl.Proofs.Runs

/-! The entry of one ingress. What a cycle plans for an ingress follows from the previous entry and
the first ingress of that identity, and what it commits for it follows from its own calls, whatever
else stands in the plan. -/

namespace IngressControl

namespace Engine

section Sets

variable {set : ResourceSet} {id : Identity} {r : Resource}

theorem find?_eq_none_iff : set.find? (.ingress id) = none ↔ ∀ r ∈ set, r.owner ≠ .ingress id := by
  rw [ResourceSet.find?, List.find?_eq_none]
  simp only [same_ingress_iff, ne_eq]

/-- Of the resources that are kept an ingress has the one that it had, if that one is kept. -/
theorem find?_filter (hd : set.Distinct) (hr : r ∈ set) (ho : r.owner = .ingress id)
    (p : Resource → Bool) :
    ResourceSet.find? (set.filter p) (.ingress id) = if p r then some r else none := by
  cases hp : p r with
  | true => exact find?_of_mem (hd.filter p) (List.mem_filter.mpr ⟨hr, hp⟩) ho
  | false =>
    refine find?_eq_none_iff.mpr fun q hq ho' => ?_
    obtain ⟨hmem, hkept⟩ := List.mem_filter.mp hq
    have hsame : q = r :=
      Option.some.inj ((find?_of_mem hd hmem ho').symm.trans (find?_of_mem hd hr ho))
    rw [hsame, hp] at hkept
    cases hkept

end Sets

/-- What a spec that is built, or the fault that comes instead, makes of the previous entry. -/
def resourceFor (id : Identity) (existing : Option Resource) : Except Fault DesiredSpec → Resource
  | .ok desired => plannedResource id existing desired
  | .error fault => taintedResource id existing fault

theorem resourceOf_eq (services : Source) (instances : List Document) (previous : ResourceSet)
    (id : Identity) (ingress : Document) :
    resourceOf services instances previous id ingress =
      resourceFor id (previous.find? (.ingress id))
        (Ingress.desiredSpec ingress (Service.nodePort services) instances) := by
  unfold resourceOf
  cases Ingress.desiredSpec ingress (Service.nodePort services) instances <;> rfl

section Entry

variable {id : Identity} {existing : Option Resource} {outcome : Except Fault DesiredSpec}

@[simp] theorem owner_resourceFor : (resourceFor id existing outcome).owner = .ingress id := by
  cases outcome <;> rfl

@[simp] theorem handle_resourceFor :
    (resourceFor id existing outcome).handle = existing.bind Resource.handle := by
  cases outcome <;> rfl

variable {engine : Engine} {now : Moment} {cloud : Cloud} {before after : ResourceSet}
  {r : Resource}

/-- The committed entry of an ingress is its resource after the calls for it. -/
theorem find?_commit_of_split (hd : ResourceSet.Distinct (before ++ r :: after))
    (ho : r.owner = .ingress id) :
    (engine.commit now cloud (before ++ r :: after)).engine.resources.find? (.ingress id) =
      if isKept (reconcile engine.context now
          (cloudAfter engine.context now cloud before) r).resource
        then some (reconcile engine.context now
          (cloudAfter engine.context now cloud before) r).resource
        else none := by
  rw [commit_resources]
  refine find?_filter (distinct_reconciled hd _ _ _) ?_ ((reconcile_owner _ _ _ _).trans ho) _
  rw [resourcesAfter_append, resourcesAfter_cons]
  exact List.mem_append_right _ List.mem_cons_self

/-- A commit finds nothing for an identity that was not planned. -/
theorem find?_commit_of_absent {planned : ResourceSet} (hn : ∀ r ∈ planned, r.owner ≠ .ingress id) :
    (engine.commit now cloud planned).engine.resources.find? (.ingress id) = none := by
  rw [commit_resources, find?_eq_none_iff]
  intro r hr ho
  have hmem : r.owner ∈ (resourcesAfter engine.context now cloud planned).map Resource.owner :=
    List.mem_map_of_mem (List.mem_filter.mp hr).1
  rw [owners_resourcesAfter] at hmem
  obtain ⟨p, hp, he⟩ := List.mem_map.mp hmem
  exact hn p hp (he.trans ho)

end Entry

end Engine

namespace Site

def entry (site : Site) (id : Identity) : Option Resource :=
  site.engine.resources.find? (.ingress id)

theorem mem_of_entry {site : Site} {id : Identity} {h : Handle}
    (hh : (site.entry id).bind Resource.handle = some h) :
    ∃ r ∈ site.engine.resources, r.owner = .ingress id ∧ r.handle = some h := by
  obtain ⟨r, hr, hh⟩ := Option.bind_eq_some_iff.mp hh
  obtain ⟨hmem, ho⟩ := Engine.owner_of_find? hr
  exact ⟨r, hmem, ho, hh⟩

end Site

namespace Step

/-- What building a spec comes to for the first ingress of an identity in a cycle that can list its
ingresses and its nodes. -/
def Specifies (context : Context) (id : Identity) (outcome : Except Fault DesiredSpec) :
    Step → Prop
  | bootstrap _ => False
  | sync _ sources _ => ∃ ingresses instances ingress,
      sources.ingresses.list = .ok ingresses ∧
      Node.listInstances sources.nodes = .ok instances ∧
      ingresses.find? (fun i => Engine.owner? context i == some id) = some ingress ∧
      Ingress.desiredSpec ingress (Service.nodePort sources.services) instances = outcome

/-- A cycle cannot list its ingresses or its nodes. -/
def Fails : Step → Prop
  | bootstrap _ => False
  | sync _ sources _ => (∃ fault, sources.ingresses.list = .error fault) ∨
      ∃ fault, Node.listInstances sources.nodes = .error fault

end Step

namespace Engine

variable {context : Context} {sources : Sources} {previous : ResourceSet} {id : Identity}

/-- If the listings succeed there is a plan, of the declared entries and the orphans. -/
theorem exists_plan {ingresses instances : List Document}
    (hl : sources.ingresses.list = .ok ingresses)
    (hn : Node.listInstances sources.nodes = .ok instances) :
    plan context sources previous =
      .ok (declaredBy context sources.services previous ingresses instances ++
        orphans previous (declaredBy context sources.services previous ingresses instances)) := by
  rw [plan, declared, hl]
  dsimp only
  rw [hn]
  rfl

/-- What a cycle plans for an ingress: what its first listing asks for, or if there is none the
deletion of what is left over from the previous entry. -/
def plannedFor (services : Source) (instances : List Document) (id : Identity)
    (existing : Option Resource) : Option Document → Option Resource
  | some ingress => some (resourceFor id existing
      (Ingress.desiredSpec ingress (Service.nodePort services) instances))
  | none => (existing.filter fun r => !r.tainted && r.handle.isSome).map Resource.stripDesired

/-- The plan for an ingress depends on nothing else that is listed or that was committed. -/
theorem find?_plan {planned : ResourceSet} {ingresses instances : List Document}
    (hd : previous.Distinct) (hplan : plan context sources previous = .ok planned)
    (hl : sources.ingresses.list = .ok ingresses)
    (hn : Node.listInstances sources.nodes = .ok instances) :
    planned.find? (.ingress id) =
      plannedFor sources.services instances id (previous.find? (.ingress id))
        (ingresses.find? fun i => owner? context i == some id) := by
  have hdistinct := distinct_plan hd hplan
  obtain rfl := Except.ok.inj (hplan.symm.trans (exists_plan hl hn))
  cases hf : ingresses.find? fun i => owner? context i == some id with
  | some ingress =>
    have hmem : resourceOf sources.services instances previous id ingress ∈
        declaredBy context sources.services previous ingresses instances :=
      List.mem_map_of_mem (f := fun entry : Identity × Document =>
        resourceOf sources.services instances previous entry.1 entry.2) (mem_owned.mpr hf)
    rw [resourceOf_eq] at hmem
    exact find?_of_mem hdistinct (List.mem_append_left _ hmem) owner_resourceFor
  | none =>
    have hdeclared : (declaredBy context sources.services previous ingresses instances).find?
        (.ingress id) = none := by
      rw [← Option.not_isSome_iff_eq_none, isSome_find?_declaredBy]
      rintro ⟨id', hid, he⟩
      obtain rfl := Owner.ingress.inj he
      obtain ⟨ingress, hmem, ho⟩ := mem_owned_identities.mp hid
      exact absurd (List.find?_eq_none.mp hf ingress hmem) (by simp [ho])
    rw [ResourceSet.find?] at hdeclared
    rw [ResourceSet.find?, List.find?_append, hdeclared, Option.none_or, orphans, List.find?_map]
    rw [plannedFor]
    congr 1
    cases hp : previous.find? (.ingress id) with
    | none =>
      refine find?_eq_none_iff.mpr fun r hr => ?_
      exact find?_eq_none_iff.mp hp r (List.mem_filter.mp hr).1
    | some r =>
      obtain ⟨hmem, ho⟩ := owner_of_find? hp
      refine (find?_filter hd hmem ho _).trans ?_
      have horphan : isOrphan (declaredBy context sources.services previous ingresses instances) r =
          (!r.tainted && r.handle.isSome) := by
        rw [isOrphan, ho, ResourceSet.find?, hdeclared, Option.isNone_none, Bool.and_true]
      rw [horphan, Option.filter_some]

/-- A cycle plans for the first ingress of an identity by its spec. -/
theorem exists_split_of_specifies (hd : previous.Distinct) {outages : List Outage} {now : Moment}
    {outcome : Except Fault DesiredSpec}
    (h : (Step.sync outages sources now).Specifies context id outcome) :
    ∃ before after,
      plan context sources previous =
        .ok (before ++ resourceFor id (previous.find? (.ingress id)) outcome :: after) ∧
      ResourceSet.Distinct
        (before ++ resourceFor id (previous.find? (.ingress id)) outcome :: after) := by
  obtain ⟨ingresses, instances, ingress, hl, hn, hf, rfl⟩ := h
  have hplan : plan context sources previous = _ := exists_plan hl hn
  have hfind : ResourceSet.find? _ (.ingress id) = _ := find?_plan hd hplan hl hn
  rw [hf, plannedFor] at hfind
  obtain ⟨before, after, hsplit⟩ := List.append_of_mem (owner_of_find? hfind).1
  have hdistinct := distinct_plan hd hplan
  rw [hsplit] at hplan hdistinct
  exact ⟨before, after, hplan, hdistinct⟩

end Engine

end IngressControl
