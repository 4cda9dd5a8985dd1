import IngressControl.Proofs.Requests
import IngressControl.Proofs.Settling

/-! No call is made in vain. Since the set of the engine mirrors the cloud at every moment of a
cycle and not only at its end, each call finds the load balancer that it is for and something to
change about it, whichever calls failed before. -/

namespace IngressControl
open scoped List
open Document (Texts)

/-- A call for a resource can be carried out on a cloud and changes something there, with at most
so many instances at once. -/
def Request.Apt (r : Resource) (limit : Int) (cloud : Cloud) : Request → Prop
  | create _ _ _ => r.handle = none
  | update h attributes => ∃ spec b, r.desired = some spec ∧
      attributes = Engine.attributes spec ∧ Ledger.get? h.arn cloud.balancers = some b ∧
      spec.needsUpdate b = .ok true
  | delete h => ∃ b, Ledger.get? h.arn cloud.balancers = some b
  | register h instances => instances ≠ [] ∧ (instances.length : Int) ≤ limit ∧
      ∃ targets, Ledger.get? h.arn cloud.targets = some targets ∧ ∀ d ∈ instances, d ∉ targets
  | deregister h instances => instances ≠ [] ∧ (instances.length : Int) ≤ limit ∧
      ∃ targets, Ledger.get? h.arn cloud.targets = some targets ∧ ∀ d ∈ instances, d ∈ targets

theorem Mirrored.textInstances {cloud : Cloud} {owner : Owner} {h : Handle} {others : List Holding}
    (hm : Mirrored cloud (⟨owner, h⟩ :: others)) : Texts h.instances := by
  obtain ⟨targets, hg, hmem⟩ := hm.mirrors _ List.mem_cons_self
  exact (hm.texts _ _ hg).mono fun d hd => (hmem d).mp hd

namespace Engine

/-- With texts the instances to add are none of the current ones, those to remove are, and none
comes twice. -/
theorem alignment_of_texts {current wanted : List Document} {a : Alignment} (hc : Texts current)
    (hw : Texts wanted) (h : alignment current wanted = .ok a) :
    a.toAdd.Nodup ∧ a.toRemove.Nodup ∧ (∀ d ∈ a.toAdd, d ∈ wanted ∧ d ∉ current) ∧
      ∀ d ∈ a.toRemove, d ∈ current := by
  have hnodup (ds es : List Document) : (without (distinct ds) es).Nodup :=
    (Cloud.nodup_join List.nodup_nil ds).filter _
  have hdistinct {ds : List Document} (hd : Texts ds) : Texts (distinct ds) :=
    hd.mono fun d h => (mem_distinct hd).mp h
  unfold alignment at h
  obtain ⟨current', hcurrent, h⟩ := bind_eq_ok h
  obtain ⟨wanted', hwanted, h⟩ := bind_eq_ok h
  obtain rfl := Except.ok.inj ((setOf_eq hc).symm.trans hcurrent)
  obtain rfl := Except.ok.inj ((setOf_eq hw).symm.trans hwanted)
  obtain ⟨toAdd, hadd, h⟩ := bind_eq_ok h
  obtain ⟨toRemove, hremove, h⟩ := bind_eq_ok h
  obtain rfl := Except.ok.inj h
  have hpadd := Document.sort_perm hadd
  have hpremove := Document.sort_perm hremove
  refine ⟨hpadd.nodup_iff.mpr (hnodup _ _), hpremove.nodup_iff.mpr (hnodup _ _), fun d hd => ?_,
    fun d hd => ?_⟩
  · obtain ⟨hmem, hnot⟩ := (mem_without (hdistinct hw)).mp (hpadd.mem_iff.mp hd)
    exact ⟨(mem_distinct hw).mp hmem, fun hd => hnot ((mem_distinct hc).mpr hd)⟩
  · obtain ⟨hmem, -⟩ := (mem_without (hdistinct hc)).mp (hpremove.mem_iff.mp hd)
    exact (mem_distinct hc).mp hmem

structure Batched (request : Handle → List Document → Request)
    (call : Cloud → Handle → List Document → Reply Unit)
    (change change' : List Document → List Document → List Document) (due : Prop → Prop) :
    Prop where
  answer : ∀ cloud h batch,
    (request h batch).answer cloud = Request.acknowledge h (call cloud h batch)
  changes : Cloud.ChangesTargets call change'
  texts : ∀ {instances batch}, Texts instances → Texts batch → Texts (change instances batch)
  others : ∀ {instances batch}, Texts instances → ∀ d, d ∉ batch →
    (d ∈ change instances batch ↔ d ∈ instances)
  apt : ∀ {r : Resource} {limit : Int} {cloud : Cloud} {h : Handle} {batch targets},
    batch ≠ [] → (batch.length : Int) ≤ limit →
    Ledger.get? h.arn cloud.targets = some targets → (∀ d ∈ batch, due (d ∈ targets)) →
    (request h batch).Apt r limit cloud

theorem batched_register :
    Batched .register Cloud.register (fun is batch => is ++ batch) Cloud.join Not where
  answer _ _ _ := rfl
  changes := Cloud.register_changesTargets
  texts hi hb := hi.append hb
  others _ d hd := by simp [hd]
  apt hne hsize hg hdue := ⟨hne, hsize, _, hg, hdue⟩

theorem batched_deregister :
    Batched .deregister Cloud.deregister without Cloud.leave id where
  answer _ _ _ := rfl
  changes := Cloud.deregister_changesTargets
  texts hi _ := hi.mono fun d hd => (List.mem_filter.mp hd).1
  others hi d hd := by simp [mem_without hi, hd]
  apt hne hsize hg hdue := ⟨hne, hsize, _, hg, hdue⟩

section Programs

variable {context : Context} {r : Resource} {others : List Holding} {spec : DesiredSpec}
  {request : Handle → List Document → Request}
  {call : Cloud → Handle → List Document → Reply Unit}
  {change change' : List Document → List Document → List Document} {due : Prop → Prop}

/-- Batches of different instances that are all due are apt one after the other. -/
theorem apt_batchesProgram (hk : Batched request call change change' due)
    (hspec : ∀ spec, r.desired = some spec → Texts spec.instances) {limit : Int}
    {batches : List (List Document)}
    (hmove : ∀ batch ∈ batches, ∀ {cloud cloud' : Cloud} {h : Handle},
      cloud'.store = cloud.store.withTargets h.arn (fun ts => change' ts batch) →
      (cloud.Calm → cloud'.Calm) →
      Move context r ⟨cloud, some h⟩ ⟨cloud', some (follow h (change h.instances batch))⟩)
    (hsize : ∀ batch ∈ batches, batch ≠ [] ∧ (batch.length : Int) ≤ limit)
    (htexts : Texts batches.flatten) (hnodup : batches.flatten.Nodup) {cloud : Cloud} {h : Handle}
    (hdue : ∀ d ∈ batches.flatten, due (d ∈ h.instances))
    (hm : Mirrored cloud (held r.owner (some h) ++ others)) :
    ∀ x ∈ (batchesProgram request change h batches).requests cloud, x.2.Apt r limit x.1 := by
  -- the mirror is kept by each call, and the instances of the batches to come stay due, since they
  -- are not in the batch that is switched over
  induction batches generalizing cloud h with
  | nil => exact fun x hx => absurd hx List.not_mem_nil
  | cons batch rest ih =>
    rw [List.flatten_cons] at htexts hnodup hdue
    obtain ⟨-, hrest, hdisjoint⟩ := List.nodup_append.mp hnodup
    obtain ⟨hne, hlength⟩ := hsize batch List.mem_cons_self
    have hbatch : Texts batch := htexts.mono fun d hd => List.mem_append_left _ hd
    have hinstances : Texts h.instances := hm.textInstances
    obtain ⟨targets, hg, hmem⟩ := hm.mirrors _ List.mem_cons_self
    have hfirst : (request h batch).Apt r limit cloud := by
      refine hk.apt hne hlength hg fun d hd => ?_
      rw [← hmem d]
      exact hdue d (List.mem_append_left _ hd)
    intro x hx
    rw [batchesProgram, Program.requests, hk.answer] at hx
    rcases List.mem_cons.mp hx with rfl | hx
    · exact hfirst
    · cases hc : call cloud h batch with
      | mk outcome cloud' =>
        rw [hc] at hx
        rcases hk.changes.cases hc with ⟨-, ⟨fault, rfl⟩, -⟩ | ⟨rfl, hs, hcalm⟩
        · cases hx
        · obtain ⟨instances, hsort, hsame⟩ := exists_sortedSet (hk.texts hinstances hbatch)
          have hm' := (hmove batch List.mem_cons_self hs hcalm).mirrored hspec hm
          simp only [Request.acknowledge, Except.map, hsort] at hx
          rw [follow, hsort] at hm'
          refine ih (fun b hb => hmove b (List.mem_cons_of_mem _ hb))
            (fun b hb => hsize b (List.mem_cons_of_mem _ hb))
            (htexts.mono fun d hd => List.mem_append_right _ hd) hrest (fun d hd => ?_) hm' x hx
          have hnot : d ∉ batch := fun hd' => hdisjoint d hd' d hd rfl
          have hkept : d ∈ instances ↔ d ∈ h.instances := by
            rw [hsame, hk.others hinstances d hnot]
          change due (d ∈ instances)
          rw [hkept]
          exact hdue d (List.mem_append_right _ hd)

theorem apt_inBatchesProgram (hk : Batched request call change change' due)
    (hspec : ∀ spec, r.desired = some spec → Texts spec.instances) {limit : Int}
    {instances : List Document}
    (hmove : ∀ batch, (∀ d ∈ batch, d ∈ instances) → ∀ {cloud cloud' : Cloud} {h : Handle},
      cloud'.store = cloud.store.withTargets h.arn (fun ts => change' ts batch) →
      (cloud.Calm → cloud'.Calm) →
      Move context r ⟨cloud, some h⟩ ⟨cloud', some (follow h (change h.instances batch))⟩)
    (htexts : Texts instances) (hnodup : instances.Nodup) {cloud : Cloud} {h : Handle}
    (hdue : ∀ d ∈ instances, due (d ∈ h.instances))
    (hm : Mirrored cloud (held r.owner (some h) ++ others)) :
    ∀ x ∈ (inBatchesProgram request change limit h instances).requests cloud,
      x.2.Apt r limit x.1 := by
  unfold inBatchesProgram
  cases hb : groupsForLimit instances limit with
  | error fault => exact fun x hx => absurd hx List.not_mem_nil
  | ok batches =>
    have hflat := flatten_groupsForLimit hb
    refine apt_batchesProgram hk hspec (fun batch hmem => hmove batch fun d hd => ?_)
      (fun batch hmem => ⟨ne_nil_of_mem_groupsForLimit hb hmem,
        length_le_of_mem_groupsForLimit hb hmem⟩) (by rwa [hflat]) (by rwa [hflat])
      (by rwa [hflat]) hm
    rw [← hflat]
    exact List.mem_flatten.mpr ⟨batch, hmem, hd⟩

/-- Registrations that all succeed leave the instances that there were and the new ones. -/
theorem mem_registered {limit : Int} {cloud : Cloud} {h : Handle} {instances : List Document}
    {added : Progress Unit} (hc : Texts h.instances) (hi : Texts instances)
    (hadded : added = callInBatches Cloud.register (fun is batch => is ++ batch) limit cloud h
      instances) (ho : added.outcome = .ok ()) (ht : Texts added.handle.instances) (d : Document) :
    d ∈ added.handle.instances ↔ d ∈ h.instances ∨ d ∈ instances := by
  obtain ⟨-, -, helements⟩ := callInBatches_of_ok combines_append hc.keys hi.keys hadded.symm ho
  rw [← List.mem_append]
  refine Document.mem_iff_of_elements ht (hc.append hi) (fun e => ?_) d
  rw [helements, List.map_append, List.mem_append]

/-- Every call that aligns targets is apt where it is made. -/
theorem apt_alignProgram (context : Context)
    (hspec : ∀ spec, r.desired = some spec → Texts spec.instances) (hd : r.desired = some spec)
    {cloud : Cloud} {h : Handle}
    (hm : Mirrored cloud (held r.owner (some h) ++ others)) (limit : Int) :
    ∀ x ∈ (alignProgram limit h spec.instances).requests cloud, x.2.Apt r limit x.1 := by
  have hinstances : Texts h.instances := hm.textInstances
  have hwanted : Texts spec.instances := hspec spec hd
  unfold alignProgram
  cases ha : alignment h.instances spec.instances with
  | error fault => exact fun x hx => absurd hx List.not_mem_nil
  | ok a =>
    obtain ⟨hnadd, hnremove, hadd, hremove⟩ := alignment_of_texts hinstances hwanted ha
    have htadd : Texts a.toAdd := hwanted.mono fun d hd => (hadd d hd).1
    have htremove : Texts a.toRemove := hinstances.mono hremove
    have hregister (batch : List Document) (hb : ∀ d ∈ batch, d ∈ a.toAdd)
        {cloud cloud' : Cloud} {h : Handle}
        (hs : cloud'.store = cloud.store.withTargets h.arn (fun ts => Cloud.join ts batch))
        (hc : cloud.Calm → cloud'.Calm) :
        Move context r ⟨cloud, some h⟩ ⟨cloud', some (follow h (h.instances ++ batch))⟩ :=
      .register spec batch hd (fun d hm => (hadd d (hb d hm)).1) hs hc
    have hderegister (batch : List Document) (_ : ∀ d ∈ batch, d ∈ a.toRemove)
        {cloud cloud' : Cloud} {h : Handle}
        (hs : cloud'.store = cloud.store.withTargets h.arn (fun ts => Cloud.leave ts batch))
        (hc : cloud.Calm → cloud'.Calm) :
        Move context r ⟨cloud, some h⟩ ⟨cloud', some (follow h (without h.instances batch))⟩ :=
      .deregister batch hs hc
    dsimp only
    split
    · exact fun x hx => absurd hx List.not_mem_nil
    · intro x hx
      rw [Program.requests_bind] at hx
      rcases List.mem_append.mp hx with hx | hx
      · exact apt_inBatchesProgram batched_register hspec hregister htadd hnadd
          (fun d hd => (hadd d hd).2) hm x hx
      · rw [run_inBatchesProgram batched_register.answer] at hx
        set added := callInBatches Cloud.register (fun is batch => is ++ batch) limit cloud h
          a.toAdd with hadded
        cases ho : added.outcome with
        | error fault =>
          rw [ho] at hx
          cases hx
        | ok =>
          rw [ho] at hx
          dsimp only at hx
          rw [Program.requests_bind] at hx
          have hm' : Mirrored added.cloud (held r.owner (some added.handle) ++ others) :=
            (callInBatches_moves batched_register.changes hregister limit cloud h).mirrored hspec hm
          have hdue : ∀ d ∈ a.toRemove, d ∈ added.handle.instances := fun d hd =>
            (mem_registered hinstances htadd hadded ho hm'.textInstances d).mpr
              (Or.inl (hremove d hd))
          rcases List.mem_append.mp hx with hx | hx
          · exact apt_inBatchesProgram batched_deregister hspec hderegister htremove hnremove hdue
              hm' x hx
          · cases hx

/-- Every call of a creation is apt where it is made. -/
theorem apt_createProgram (hspec : ∀ spec, r.desired = some spec → Texts spec.instances)
    (hd : r.desired = some spec) (hh : r.handle = none) {cloud : Cloud}
    (hm : Mirrored cloud others) :
    ∀ x ∈ (createProgram context r.owner spec).requests cloud,
      x.2.Apt r context.maxTargets x.1 := by
  intro x hx
  rw [createProgram, Program.requests, Request.answer] at hx
  rcases List.mem_cons.mp hx with rfl | hx
  · exact hh
  · cases hc : cloud.create (nameOfKey context.clusterName r.owner.key) (attributes spec)
        (tags context r.owner) with
    | mk outcome cloud' =>
      rw [hc] at hx
      rcases Cloud.create_cases hc with ⟨-, ⟨fault, rfl⟩, -⟩ | ⟨rfl, hs, hcalm⟩
      · cases hx
      · have hmove : Move context r ⟨cloud, none⟩ ⟨cloud', some (cloud.made
            (nameOfKey context.clusterName r.owner.key) (attributes spec)
            (tags context r.owner))⟩ := .create spec hd hs hcalm
        dsimp only at hx
        rw [Program.requests_bind] at hx
        rcases List.mem_append.mp hx with hx | hx
        · exact apt_alignProgram context hspec hd (hmove.mirrored hspec hm) context.maxTargets x hx
        · cases hx

/-- Every call of an update is apt where it is made. -/
theorem apt_updateProgram (hspec : ∀ spec, r.desired = some spec → Texts spec.instances)
    (hd : r.desired = some spec) {cloud : Cloud} {h : Handle}
    (hm : Mirrored cloud (held r.owner (some h) ++ others)) :
    ∀ x ∈ (updateProgram context h spec).requests cloud, x.2.Apt r context.maxTargets x.1 := by
  have halign {cloud : Cloud} {h : Handle} {f : Except Fault Bool × Handle → Ending}
      (hm : Mirrored cloud (held r.owner (some h) ++ others)) {x : Cloud × Request}
      (hx : x ∈ ((alignProgram context.maxTargets h spec.instances).bind
        fun result => .done (f result)).requests cloud) : x.2.Apt r context.maxTargets x.1 := by
    rw [Program.requests_bind] at hx
    rcases List.mem_append.mp hx with hx | hx
    · exact apt_alignProgram context hspec hd hm context.maxTargets x hx
    · cases hx
  intro x hx
  unfold updateProgram attributesProgram at hx
  cases hn : spec.needsUpdate h with
  | error fault =>
    rw [hn] at hx
    cases hx
  | ok needed =>
    rw [hn] at hx
    cases needed with
    | false => exact halign hm hx
    | true =>
      obtain ⟨b, hb, hbare⟩ := hm.first
      simp only [Program.bind, Program.requests, Request.answer] at hx
      rcases List.mem_cons.mp hx with rfl | hx
      · refine ⟨spec, b, hd, rfl, hb, ?_⟩
        rw [spec.needsUpdate_of_bare hbare, hn]
      · cases hc : cloud.update h (attributes spec) with
        | mk outcome cloud' =>
          rw [hc] at hx
          rcases Cloud.update_cases hc with ⟨-, ⟨fault, rfl⟩, -⟩ | ⟨stored, hg, rfl, hs, hcalm⟩
          · cases hx
          · have hmove : Move context r ⟨cloud, some h⟩ ⟨cloud',
                some { (attributes spec).change stored with instances := h.instances }⟩ :=
              .update spec hd hg hs hcalm
            exact halign (hmove.mirrored hspec hm) hx

/-- Every call for a resource is apt. -/
theorem apt_program (hspec : ∀ spec, r.desired = some spec → Texts spec.instances) {cloud : Cloud}
    (hm : Mirrored cloud (held r.owner r.handle ++ others)) :
    ∀ x ∈ (program context r).requests cloud, x.2.Apt r context.maxTargets x.1 := by
  unfold program
  cases hd : r.desired with
  | none =>
    cases hh : r.handle with
    | none => exact fun x hx => absurd hx List.not_mem_nil
    | some h =>
      intro x hx
      rw [hh] at hm
      obtain ⟨b, hb, -⟩ := hm.first
      dsimp only [deleteProgram, Program.requests] at hx
      rcases List.mem_cons.mp hx with rfl | hx
      · exact ⟨b, hb⟩
      · -- there are no calls after the deletion, however it ends
        split at hx <;> cases hx
  | some spec =>
    cases hh : r.handle with
    | none =>
      rw [hh] at hm
      exact apt_createProgram hspec hd hh hm
    | some h =>
      rw [hh] at hm
      exact apt_updateProgram hspec hd hm

end Programs

section Plan

variable {context : Context} {cloud : Cloud} {planned : ResourceSet}

/-- Every call for a plan is apt at its moment. -/
theorem apt_issued (now : Moment)
    (hspec : ∀ r ∈ planned, r.tainted = false → ∀ spec, r.desired = some spec →
      Texts spec.instances) (hm : Mirrored cloud (holdings planned)) :
    ∀ x ∈ issued context now cloud planned,
      x.request.Apt x.resource context.maxTargets x.cloud := by
  -- the calls for a resource keep the mirror of the load balancers of the rest
  induction planned generalizing cloud with
  | nil => exact fun x hx => absurd hx List.not_mem_nil
  | cons r rest ih =>
    have hm : Mirrored cloud (held r.owner r.handle ++ holdings rest) := hm
    have hrest : ∀ r ∈ rest, r.tainted = false → ∀ spec, r.desired = some spec →
        Texts spec.instances := fun r hr => hspec r (List.mem_cons_of_mem _ hr)
    have hsub (handle : Option Handle) : holdings rest <+~ held r.owner handle ++ holdings rest :=
      (List.sublist_append_right _ _).subperm
    intro x hx
    rw [issued] at hx
    cases ht : r.tainted with
    | true =>
      rw [requestsOf_of_tainted ht, reconcile_of_tainted ht] at hx
      exact ih hrest (hm.subperm (hsub _)) x hx
    | false =>
      have hwanted := hspec r List.mem_cons_self ht
      have hm' := (reconcile_moves context now cloud r).mirrored hwanted hm
      rcases List.mem_append.mp hx with hx | hx
      · obtain ⟨y, hy, rfl⟩ := List.mem_map.mp hx
        rw [requestsOf_of_untainted ht] at hy
        exact apt_program hwanted hm y hy
      · exact ih hrest (hm'.subperm (hsub _)) x hx

/-- At most one load balancer is created for a resource. -/
theorem creates_requestsOf (context : Context) (cloud : Cloud) (r : Resource) :
    ((requestsOf context cloud r).filter fun x => x.2.isCreate).length ≤ 1 := by
  have hnone {xs : List (Cloud × Request)} (hxs : ∀ x ∈ xs, x.2.isCreate = false) :
      xs.filter (fun x => x.2.isCreate) = [] :=
    List.filter_eq_nil_iff.mpr fun x hx => by simp [hxs x hx]
  cases ht : r.tainted with
  | true => simp [requestsOf_of_tainted ht]
  | false =>
    rw [requestsOf_of_untainted ht]
    by_cases hcreate : ∃ spec, r.desired = some spec ∧ r.handle = none
    · obtain ⟨spec, hd, hh⟩ := hcreate
      obtain ⟨later, he, hlater⟩ := requests_createProgram context r.owner spec cloud
      have hlater : ∀ x ∈ later, x.2.isCreate = false := by
        intro x hx
        obtain ⟨h, batch, hk | hk⟩ := hlater x hx
        · rw [hk]; rfl
        · rw [hk]; rfl
      simp only [program, hd, hh]
      rw [he, List.filter_cons_of_pos (by rfl), hnone hlater]
      exact Nat.le_refl 1
    · rw [hnone]
      · exact Nat.zero_le 1
      · intro x hx
        rcases mem_program_cases hx with ⟨spec, hd, hh, -⟩ | ⟨spec, h, -, -, hk⟩ | ⟨h, -, -, hk⟩ |
          ⟨spec, h, batch, -, hk | hk⟩
        · exact absurd ⟨spec, hd, hh⟩ hcreate
        all_goals
          rw [hk]
          rfl

/-- A commit creates at most one load balancer for an identity. -/
theorem creates_issued (now : Moment) (hd : planned.Distinct) (id : Identity) :
    ((requestsFor id (issued context now cloud planned)).filter fun x => x.2.isCreate).length ≤
      1 := by
  by_cases hpresent : ∃ r ∈ planned, r.owner = .ingress id
  · obtain ⟨r, hr, ho⟩ := hpresent
    obtain ⟨before, after, rfl⟩ := List.append_of_mem hr
    rw [requestsFor_issued_of_split hd ho]
    exact creates_requestsOf context _ r
  · rw [requestsFor_issued_of_absent fun r hr ho => hpresent ⟨r, hr, ho⟩]
    exact Nat.zero_le 1

end Plan

end Engine

section Answers

variable {arn : String}

/-- A call reports a missing load balancer only if carrying it out does. -/
theorem Cloud.perform_ne_missing {α : Type} {cloud : Cloud} {operation : Operation}
    {target : Document} {act : Cloud → Reply α}
    (hact : ∀ c, c.store = cloud.store → (act c).1 ≠ .error (.loadBalancerMissing arn)) :
    (cloud.perform operation target act).1 ≠ .error (.loadBalancerMissing arn) := by
  cases hp : cloud.perform operation target act with
  | mk outcome cloud' =>
    rcases Cloud.perform_cases hp with ⟨-, ⟨reason, rfl⟩, -⟩ | ⟨c, hs, -, ha⟩
    · simp
    · have hc := hact c hs
      rwa [ha] at hc

theorem Cloud.withinLimit_ne_missing (cloud : Cloud) (instances : List Document)
    {act : Cloud → Reply Unit}
    (hact : (act cloud).1 ≠ .error (.loadBalancerMissing arn)) :
    (cloud.withinLimit instances act).1 ≠ .error (.loadBalancerMissing arn) := by
  unfold Cloud.withinLimit Cloud.exceedsLimit
  cases cloud.limit.quantity? with
  | none => simp
  | some limit =>
    dsimp only
    cases limit.less (.ofInt instances.length) with
    | true => simp
    | false => exact hact

/-- A call that is apt is not answered with a missing load balancer. -/
theorem Request.Apt.answer_ne_missing {r : Resource} {limit : Int} {cloud : Cloud}
    {request : Request} (h : request.Apt r limit cloud) :
    (request.answer cloud).1 ≠ .error (.loadBalancerMissing arn) := by
  have hacknowledge {h : Handle} {reply : Reply Unit}
      (hr : reply.1 ≠ .error (.loadBalancerMissing arn)) :
      (Request.acknowledge h reply).1 ≠ .error (.loadBalancerMissing arn) := by
    obtain ⟨outcome, cloud'⟩ := reply
    cases outcome with
    | error fault =>
      intro he
      exact hr (congrArg Except.error (Except.error.inj he))
    | ok => simp [Request.acknowledge, Except.map]
  cases request with
  | create name attributes tags => exact Cloud.perform_ne_missing fun c _ => by simp
  | update h attributes =>
    obtain ⟨spec, b, -, -, hb, -⟩ := h
    refine Cloud.perform_ne_missing fun c hs => ?_
    rw [Cloud.balancers_of_store hs, hb]
    simp
  | delete h => exact hacknowledge (Cloud.perform_ne_missing fun c _ => by simp)
  | register h instances =>
    refine hacknowledge (Cloud.perform_ne_missing fun c _ => ?_)
    exact c.withinLimit_ne_missing instances (by simp)
  | deregister h instances =>
    refine hacknowledge (Cloud.perform_ne_missing fun c _ => ?_)
    exact c.withinLimit_ne_missing instances (by simp)

end Answers

structure Step.Sparing (site : Site) (step : Step) : Prop extends step.Logged site where
  /-- Each call can be carried out and changes something at the moment when it is made. -/
  apt : ∀ x ∈ step.requests site,
    x.request.Apt x.resource site.engine.context.maxTargets x.cloud
  once : ∀ id,
    ((requestsFor id (step.requests site)).filter fun x => x.2.isCreate).length ≤ 1
  found : ∀ x ∈ step.requests site, ∀ arn,
    (x.request.answer x.cloud).1 ≠ .error (.loadBalancerMissing arn)

namespace Site

variable {site : Site} {steps : List Step}

/-- In a run that starts with nothing committed and sees nodes with texts as instances, every call
of every cycle is apt and finds its load balancer, whichever calls fail. -/
theorem sparing_run (hi : site.Initial) (ht : site.cloud.TextTargets)
    (hn : ∀ step ∈ steps, step.TextNodes) {outages : List Outage} {sources : Sources} {now : Moment}
    (hlast : (Step.sync outages sources now).TextNodes) :
    (Step.sync outages sources now).Sparing (site.run steps) := by
  have hm := hi.mirrored_run ht hn
  have hd := (hi.consistent_run steps).distinct
  set engine := (site.run steps).engine with hengine
  set cloud := (site.run steps).cloud.withOutages outages with hcloud
  have hm : Mirrored cloud (holdings engine.resources) :=
    hm.of_store ((site.run steps).cloud.store_withOutages outages)
  have hapt : ∀ x ∈ engine.requests sources now cloud,
      x.request.Apt x.resource engine.context.maxTargets x.cloud := by
    unfold Engine.requests
    cases hplan : Engine.plan engine.context sources engine.resources with
    | error fault => exact fun x hx => absurd hx List.not_mem_nil
    | ok planned =>
      obtain ⟨instances, hlisted, hspec⟩ := Engine.instances_of_mem_plan hplan
      refine Engine.apt_issued now (fun r hr htainted spec hs => ?_)
        (hm.subperm (Engine.holdings_plan_subperm hplan))
      rw [hspec r hr htainted spec hs]
      exact hlast instances hlisted
  have honce : ∀ id, ((requestsFor id (engine.requests sources now cloud)).filter
      fun x => x.2.isCreate).length ≤ 1 := by
    intro id
    unfold Engine.requests
    cases hplan : Engine.plan engine.context sources engine.resources with
    | error fault => exact Nat.zero_le 1
    | ok planned => exact Engine.creates_issued now (Engine.distinct_plan hd hplan) id
  exact ⟨Step.logged_sync _ _ _ _, hapt, honce, fun x hx _ => (hapt x hx).answer_ne_missing⟩

end Site

namespace Shop

/-- After a cycle in which the registration of the targets failed, the next cycle has one call to
make: the registration again. -/
theorem sparing_after_outage :
    ((sync [] [ingress] [service]).requests
        (start.run [.bootstrap [], sync [registrationFails] [ingress] [service]])).map
          (fun x => x.request.call.operation) = [.register] ∧
      (sync [] [ingress] [service]).Sparing
        (start.run [.bootstrap [], sync [registrationFails] [ingress] [service]]) := by
  refine ⟨by decide +kernel, Site.sparing_run initial_start nofun (fun step hs => ?_)
    (textNodes_sync _ _ _)⟩
  simp only [List.mem_cons, List.not_mem_nil, or_false] at hs
  rcases hs with rfl | rfl
  · trivial
  · exact textNodes_sync _ _ _

end Shop

end IngressControl
