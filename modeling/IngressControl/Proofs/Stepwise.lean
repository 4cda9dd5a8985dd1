import IngressControl.Proofs.Alignment
import IngressControl.Proofs.Courses

/-! Aligning targets one call at a time, whichever of the calls fail. The missing instances are all
registered before any other is taken off, so at no moment is a wanted instance gone that was there,
and the handle tells at every moment what the calls so far have brought about. -/

namespace IngressControl

open Document (Texts)

namespace Engine

structure Alignment.Between (a : Alignment) (current wanted : List Document) : Prop where
  toAdd : ∀ d, d ∈ a.toAdd ↔ d ∈ wanted ∧ d ∉ current
  toRemove : ∀ d, d ∈ a.toRemove ↔ d ∈ current ∧ d ∉ wanted
  addInOrder : Document.Ascending a.toAdd
  removeInOrder : Document.Ascending a.toRemove

def Alignment.shifts (limit : Int) (a : Alignment) : List Shift :=
  (cut limit a.toAdd).map Shift.register ++ (cut limit a.toRemove).map Shift.deregister

section Between

variable {current wanted : List Document} {a : Alignment} {limit : Int}

/-- An alignment lies between the current targets and the wanted ones. -/
theorem between_of_alignment (hc : Texts current) (hw : Texts wanted)
    (h : alignment current wanted = .ok a) : a.Between current wanted := by
  have hdistinct {ds : List Document} (hd : Texts ds) : Texts (distinct ds) :=
    hd.mono fun d h => (mem_distinct hd).mp h
  have hside {ds es sorted : List Document} (hd : Texts ds) (he : Texts es)
      (hs : Document.sort (without (distinct ds) (distinct es)) = .ok sorted) :
      (∀ d, d ∈ sorted ↔ d ∈ ds ∧ d ∉ es) ∧ Document.Ascending sorted := by
    refine ⟨fun d => ?_, ?_⟩
    · rw [(Document.sort_perm hs).mem_iff, mem_without (hdistinct hd), mem_distinct hd,
        mem_distinct he]
    · have htexts : Texts (without (distinct ds) (distinct es)) :=
        (hdistinct hd).mono fun d hm => (List.mem_filter.mp hm).1
      exact htexts.ascending_of_sort ((nodup_distinct ds).filter _) hs
  rw [alignment, setOf_eq hc, setOf_eq hw] at h
  obtain ⟨_, ⟨⟩, h⟩ := bind_eq_ok h
  obtain ⟨_, ⟨⟩, h⟩ := bind_eq_ok h
  obtain ⟨toAdd, hadd, h⟩ := bind_eq_ok h
  obtain ⟨toRemove, hremove, h⟩ := bind_eq_ok h
  obtain rfl := Except.ok.inj h
  obtain ⟨hmemAdd, haddOrder⟩ := hside hw hc hadd
  obtain ⟨hmemRemove, hremoveOrder⟩ := hside hc hw hremove
  exact ⟨hmemAdd, hmemRemove, haddOrder, hremoveOrder⟩

theorem toward_of_mem_shifts (hb : a.Between current wanted) (hl : 0 < limit) {shift : Shift}
    (hs : shift ∈ a.shifts limit) : shift.Toward wanted := by
  rcases List.mem_append.mp hs with hs | hs
  · obtain ⟨batch, hbatch, rfl⟩ := List.mem_map.mp hs
    intro d hd
    have hmem : d ∈ a.toAdd :=
      (cut_cut hl a.toAdd).covers ▸ List.mem_flatten.mpr ⟨batch, hbatch, hd⟩
    exact ((hb.toAdd d).mp hmem).1
  · obtain ⟨batch, hbatch, rfl⟩ := List.mem_map.mp hs
    intro d hd
    have hmem : d ∈ a.toRemove :=
      (cut_cut hl a.toRemove).covers ▸ List.mem_flatten.mpr ⟨batch, hbatch, hd⟩
    exact ((hb.toRemove d).mp hmem).2

end Between

inductive Alignment.Ends (limit : Int) (a : Alignment) :
    List Shift → Except Fault Unit → Except Fault Bool → Prop
  | failed {shifts : List Shift} (h : shifts <+: a.shifts limit) (fault : Fault) :
      Ends limit a shifts (.error fault) (.error fault)
  | aligned (hadd : Cuttable limit a.toAdd) (hremove : Cuttable limit a.toRemove) :
      Ends limit a (a.shifts limit) (.ok ()) (.ok !a.isNothing)
  | unregistered (hadd : ¬ Cuttable limit a.toAdd) :
      Ends limit a [] (.ok ()) (.error (.groupCount 0))
  | unremoved (hadd : Cuttable limit a.toAdd) (hremove : ¬ Cuttable limit a.toRemove) :
      Ends limit a ((cut limit a.toAdd).map Shift.register) (.ok ()) (.error (.groupCount 0))

section Takes

variable {limit : Int} {h h' : Handle} {wanted : List Document} {course : List Exchange}
  {f : List Document → Shift}

theorem carries_of_takes_batchesProgram (hw : Texts wanted) {batches : List (List Document)}
    (ht : ∀ batch ∈ batches, (f batch).Toward wanted) (hi : Texts h.instances)
    {x : Except Fault Unit × Handle}
    (hx : (batchesProgram (fun h batch => (f batch).request h)
      (fun instances batch => (f batch).change instances) h batches).Takes course x) :
    Carries h (batches.map f) course x.1 x.2 := by
  induction batches generalizing h course with
  | nil =>
    obtain ⟨rfl, rfl⟩ := Program.of_takes_done hx
    exact .ended
  | cons batch rest ih =>
    cases hx with
    | ask answer hx =>
      cases answer with
      | error fault =>
        obtain ⟨rfl, rfl⟩ := Program.of_takes_done hx
        exact .failed (f batch) (rest.map f) fault
      | ok handle =>
        have hchange := Shift.texts_change hi hw (ht batch List.mem_cons_self)
        obtain ⟨sorted, hs, hmem⟩ := exists_sortedSet hchange
        simp only [hs] at hx
        exact .made handle hs (ih (fun b hb => ht b (List.mem_cons_of_mem _ hb))
          (hchange.mono fun d hd => (hmem d).mp hd) hx)

theorem cases_of_takes_inBatchesProgram (hl : 0 < limit) (hw : Texts wanted)
    {instances : List Document} (ht : ∀ batch ∈ cut limit instances, (f batch).Toward wanted)
    (hi : Texts h.instances) {x : Except Fault Unit × Handle}
    (hx : (inBatchesProgram (fun h batch => (f batch).request h)
      (fun is batch => (f batch).change is) limit h instances).Takes course x) :
    (Cuttable limit instances ∧ Carries h ((cut limit instances).map f) course x.1 x.2) ∨
      (¬ Cuttable limit instances ∧ course = [] ∧ x = (.error (.groupCount 0), h)) := by
  by_cases hc : Cuttable limit instances
  · rw [inBatchesProgram, groupsForLimit_of_cuttable hl hc] at hx
    exact Or.inl ⟨hc, carries_of_takes_batchesProgram hw ht hi hx⟩
  · rw [inBatchesProgram, groupsForLimit_of_not_cuttable hl hc] at hx
    exact Or.inr ⟨hc, Program.of_takes_done hx⟩

/-- Where nothing is to be changed, no call is due. -/
theorem ends_of_isNothing {a : Alignment} (hn : a.isNothing = true) (limit : Int) (h : Handle) :
    a.Ends limit (a.shifts limit) (.ok ()) (.ok false) ∧
      Carries h (a.shifts limit) [] (.ok ()) h := by
  have hempty := hn
  rw [Alignment.isNothing, Bool.and_eq_true, List.isEmpty_iff, List.isEmpty_iff] at hempty
  constructor
  · have hends : a.Ends limit _ _ _ := .aligned (Or.inl hempty.1) (Or.inl hempty.2)
    rwa [hn] at hends
  · rw [Alignment.shifts, hempty.1, hempty.2]
    simp only [cut, chunks, List.map_nil, List.append_nil]
    exact .ended

/-- Once all that is missing is registered, taking the others off decides how it ends. -/
theorem ends_of_registered (hl : 0 < limit) (hw : Texts wanted) {a : Alignment}
    (hderegister : ∀ batch ∈ cut limit a.toRemove, (Shift.deregister batch).Toward wanted)
    (hn : a.isNothing = false) (hadd : Cuttable limit a.toAdd) {h₁ : Handle}
    {first second : List Exchange}
    (hfirst : Carries h ((cut limit a.toAdd).map .register) first (.ok ()) h₁)
    (hi : Texts h₁.instances) {removed : Except Fault Unit}
    (hsecond : (inBatchesProgram .deregister without limit h₁ a.toRemove).Takes second
      (removed, h')) :
    ∃ shifts result, a.Ends limit shifts result (removed.map fun _ => true) ∧
      Carries h shifts (first ++ second) result h' := by
  rcases cases_of_takes_inBatchesProgram hl hw (f := .deregister) hderegister hi hsecond with
    ⟨hremove, hcarries⟩ | ⟨hremove, rfl, hstuck⟩
  · have hall := hfirst.append hcarries
    cases removed with
    | error fault => exact ⟨_, _, .failed (List.prefix_refl _) fault, hall⟩
    | ok =>
      have hends := Alignment.Ends.aligned hadd hremove
      rw [hn] at hends
      exact ⟨_, _, hends, hall⟩
  · obtain ⟨rfl, rfl⟩ := Prod.mk.inj hstuck
    rw [List.append_nil]
    exact ⟨_, _, .unremoved hadd hremove, hfirst⟩

/-- Every course of aligning targets makes some of the changes that are due, in their order. -/
theorem ends_of_takes_alignProgram (hl : 0 < limit) (hi : Texts h.instances) (hw : Texts wanted)
    {a : Alignment} (ha : alignment h.instances wanted = .ok a) {outcome : Except Fault Bool}
    (hx : (alignProgram limit h wanted).Takes course (outcome, h')) :
    ∃ shifts result, a.Ends limit shifts result outcome ∧
      Carries h shifts course result h' := by
  have hb := between_of_alignment hi hw ha
  have hregister : ∀ batch ∈ cut limit a.toAdd, (Shift.register batch).Toward wanted :=
    fun batch hm => toward_of_mem_shifts hb hl
      (List.mem_append_left _ (List.mem_map_of_mem hm))
  have hderegister : ∀ batch ∈ cut limit a.toRemove, (Shift.deregister batch).Toward wanted :=
    fun batch hm => toward_of_mem_shifts hb hl
      (List.mem_append_right _ (List.mem_map_of_mem hm))
  rw [alignProgram, ha] at hx
  dsimp only at hx
  cases hn : a.isNothing with
  | true =>
    rw [if_pos hn] at hx
    obtain ⟨rfl, hresult⟩ := Program.of_takes_done hx
    obtain ⟨rfl, rfl⟩ := Prod.mk.inj hresult
    exact ⟨_, _, ends_of_isNothing hn limit h'⟩
  | false =>
    rw [if_neg (Bool.eq_false_iff.mp hn)] at hx
    obtain ⟨first, later, ⟨added, h₁⟩, rfl, hfirst, hlater⟩ := Program.takes_of_bind hx
    rcases cases_of_takes_inBatchesProgram hl hw (f := .register) hregister hi hfirst with
      ⟨hadd, hcarries⟩ | ⟨hadd, rfl, hstuck⟩
    · cases added with
      | error fault =>
        obtain ⟨rfl, hresult⟩ := Program.of_takes_done hlater
        obtain ⟨rfl, rfl⟩ := Prod.mk.inj hresult
        rw [List.append_nil]
        exact ⟨_, _, .failed (List.prefix_append _ _) fault, hcarries⟩
      | ok =>
        have hi₁ : Texts h₁.instances := hcarries.texts hi hw fun shift hs =>
          toward_of_mem_shifts hb hl (List.mem_append_left _ hs)
        obtain ⟨second, last, ⟨removed, h₂⟩, rfl, hsecond, hlast⟩ := Program.takes_of_bind hlater
        obtain ⟨rfl, hresult⟩ := Program.of_takes_done hlast
        obtain ⟨rfl, rfl⟩ := Prod.mk.inj hresult
        rw [List.append_nil]
        exact ends_of_registered hl hw hderegister hn hadd hcarries hi₁ hsecond
    · obtain ⟨rfl, rfl⟩ := Prod.mk.inj hstuck
      obtain ⟨rfl, hresult⟩ := Program.of_takes_done hlater
      obtain ⟨rfl, rfl⟩ := Prod.mk.inj hresult
      exact ⟨[], .ok (), .unregistered hadd, .ended⟩

end Takes

/-- Aligning targets step by step: the calls that are made with what they were answered, and the
outcome and the handle that they lead to. -/
structure Stepwise (limit : Int) (h : Handle) (wanted : List Document) (a : Alignment)
    (course : List Exchange) (outcome : Except Fault Bool) (h' : Handle) : Prop where
  inOrder : course.map Exchange.shift? <+: (a.shifts limit).map some
  stops : ∀ before x after fault, course = before ++ x :: after → x.answer = .error fault →
    after = [] ∧ outcome = .error fault
  handed : ∀ before x after, course = before ++ x :: after →
    ∃ (shift : Shift) (h₀ : Handle), h.Follows before h₀ ∧ x.request = shift.request h₀
  left : h.Follows course h'
  keeps : ∀ before, before <+: course → ∀ d ∈ h.instances, d ∈ wanted →
    Standing h.instances before d
  /-- When a target is to be taken off, and from then on, everything wanted stands. -/
  patient : ∀ before x after, course = before ++ x :: after → x.isDeregister = true →
    ∀ later, later <+: x :: after → ∀ d ∈ wanted, Standing h.instances (before ++ later) d
  /-- If no call fails, the calls are as few as the limit allows and the wanted instances are left,
  as long as both lists can be cut for the limit. -/
  complete : (∀ x ∈ course, x.succeeded = true) → Cuttable limit a.toAdd →
    Cuttable limit a.toRemove →
    outcome = .ok (!a.isNothing) ∧
      course.countP Exchange.isRegister = ceilDiv a.toAdd.length limit.toNat ∧
      course.countP Exchange.isDeregister = ceilDiv a.toRemove.length limit.toNat ∧
      ∀ d, d ∈ h'.instances ↔ d ∈ wanted
  /-- A list that cannot be cut for the limit is the only other way to fail. -/
  stuck : (∀ x ∈ course, x.succeeded = true) →
    ¬ (Cuttable limit a.toAdd ∧ Cuttable limit a.toRemove) → outcome = .error (.groupCount 0)

section Stepwise

variable {limit : Int} {h h' : Handle} {wanted : List Document} {a : Alignment}
  {course : List Exchange} {d : Document}

theorem mem_gained_of_register (hok : ∀ x ∈ course, x.succeeded = true) {batch : List Document}
    (hs : some (.register batch) ∈ course.map Exchange.shift?) (hd : d ∈ batch) :
    d ∈ course.flatMap Exchange.gained := by
  obtain ⟨x, hx, he⟩ := List.mem_map.mp hs
  refine List.mem_flatMap.mpr ⟨x, hx, ?_⟩
  rwa [Exchange.gained_of_succeeded (hok x hx) he]

theorem mem_lost_of_deregister (hok : ∀ x ∈ course, x.succeeded = true) {batch : List Document}
    (hs : some (.deregister batch) ∈ course.map Exchange.shift?) (hd : d ∈ batch) :
    d ∈ course.flatMap Exchange.lost := by
  obtain ⟨x, hx, he⟩ := List.mem_map.mp hs
  refine List.mem_flatMap.mpr ⟨x, hx, ?_⟩
  rwa [Exchange.lost_of_succeeded (hok x hx) he]

/-- When a batch is taken off, all batches to register have had their calls. -/
theorem register_before_deregister {registers deregisters : List (List Document)}
    {before after : List Exchange} {x : Exchange}
    (hp : (before ++ x :: after).map Exchange.shift? <+:
      (registers.map Shift.register ++ deregisters.map Shift.deregister).map some)
    (hx : x.isDeregister = true) :
    ∀ batch ∈ registers, some (.register batch) ∈ before.map Exchange.shift? := by
  induction registers generalizing before with
  | nil => nofun
  | cons first rest ih =>
    simp only [List.map_cons, List.cons_append] at hp
    cases before with
    | nil =>
      -- a call to take something off is not the one for the first batch to register
      have hfirst : x.shift? = some (.register first) := (List.cons_prefix_cons.mp hp).1
      rw [Exchange.isDeregister, hfirst] at hx
      cases hx
    | cons y before =>
      obtain ⟨hy, hp⟩ := List.cons_prefix_cons.mp hp
      intro batch hb
      rcases List.mem_cons.mp hb with rfl | hb
      · rw [List.map_cons, hy]
        exact List.mem_cons_self
      · exact List.mem_cons_of_mem _ (ih hp batch hb)

theorem Alignment.Ends.prefix_shifts {shifts : List Shift} {result : Except Fault Unit}
    {outcome : Except Fault Bool} (he : a.Ends limit shifts result outcome) :
    shifts <+: a.shifts limit := by
  cases he with
  | failed hp fault => exact hp
  | aligned hadd hremove => exact List.prefix_refl _
  | unregistered hadd => exact List.nil_prefix
  | unremoved hadd hremove => exact List.prefix_append _ _

theorem Alignment.Between.mem_of_wanted (hb : a.Between h.instances wanted) (hd : d ∈ wanted) :
    d ∈ h.instances ∨ d ∈ a.toAdd := by
  by_cases hc : d ∈ h.instances
  · exact Or.inl hc
  · exact Or.inr ((hb.toAdd d).mpr ⟨hd, hc⟩)

/-- Without a failure the calls are those for all changes that are due, or a list is in the way that
cannot be cut. -/
theorem Alignment.Ends.cases_of_ok {shifts : List Shift} {outcome : Except Fault Bool}
    (he : a.Ends limit shifts (.ok ()) outcome) :
    (Cuttable limit a.toAdd ∧ Cuttable limit a.toRemove ∧ shifts = a.shifts limit ∧
        outcome = .ok !a.isNothing) ∨
      (¬ (Cuttable limit a.toAdd ∧ Cuttable limit a.toRemove) ∧
        outcome = .error (.groupCount 0)) := by
  cases he with
  | aligned hadd hremove => exact Or.inl ⟨hadd, hremove, rfl, rfl⟩
  | unregistered hadd => exact Or.inr ⟨fun hc => hadd hc.1, rfl⟩
  | unremoved hadd hremove => exact Or.inr ⟨fun hc => hremove hc.2, rfl⟩

/-- A complete course makes the least number of calls of each kind. -/
theorem countP_of_complete (hl : 0 < limit)
    (hc : course.map Exchange.shift? = (a.shifts limit).map some) :
    course.countP Exchange.isRegister = ceilDiv a.toAdd.length limit.toNat ∧
      course.countP Exchange.isDeregister = ceilDiv a.toRemove.length limit.toNat := by
  have hcount (p : Shift → Bool) : course.countP (fun x => x.shift?.any p) =
      (a.shifts limit).countP p := by
    calc course.countP (fun x => x.shift?.any p)
        = (course.map Exchange.shift?).countP (Option.any p) := by
          rw [List.countP_map]
          rfl
      _ = ((a.shifts limit).map some).countP (Option.any p) := by rw [hc]
      _ = (a.shifts limit).countP p := List.countP_map
  have hregisters : (a.shifts limit).countP Shift.isRegister = (cut limit a.toAdd).length := by
    have hyes : Shift.isRegister ∘ Shift.register = fun _ => true := rfl
    have hno : Shift.isRegister ∘ Shift.deregister = fun _ => false := rfl
    simp [Alignment.shifts, List.countP_map, hyes, hno]
  have hderegisters : (a.shifts limit).countP Shift.isDeregister =
      (cut limit a.toRemove).length := by
    have hno : Shift.isDeregister ∘ Shift.register = fun _ => false := rfl
    have hyes : Shift.isDeregister ∘ Shift.deregister = fun _ => true := rfl
    simp [Alignment.shifts, List.countP_map, hyes, hno]
  constructor
  · rw [← (cut_cut hl a.toAdd).fewest, ← hregisters]
    exact hcount Shift.isRegister
  · rw [← (cut_cut hl a.toRemove).fewest, ← hderegisters]
    exact hcount Shift.isDeregister

/-- If all calls are made and none fails, the handle is left with the wanted instances. -/
theorem mem_instances_of_complete (hl : 0 < limit) (hb : a.Between h.instances wanted)
    (hok : ∀ x ∈ course, x.succeeded = true) (hheading : Heading wanted course)
    (hc : course.map Exchange.shift? = (a.shifts limit).map some)
    (hf : h.Follows course h') (d : Document) : d ∈ h'.instances ↔ d ∈ wanted := by
  rw [hf.instances d]
  constructor
  · rintro ⟨hthere, hlost⟩
    rcases hthere with hthere | hgained
    · by_contra hn
      have hmem : d ∈ (cut limit a.toRemove).flatten := by
        rw [(cut_cut hl a.toRemove).covers]
        exact (hb.toRemove d).mpr ⟨hthere, hn⟩
      obtain ⟨batch, hbatch, hd⟩ := List.mem_flatten.mp hmem
      refine hlost (mem_lost_of_deregister hok ?_ hd)
      rw [hc]
      exact List.mem_map_of_mem (List.mem_append_right _ (List.mem_map_of_mem hbatch))
    · exact hheading.mem_of_gained hgained
  · intro hd
    refine hheading.standing hd ((hb.mem_of_wanted hd).imp_right fun hadd => ?_)
    rw [← (cut_cut hl a.toAdd).covers] at hadd
    obtain ⟨batch, hbatch, hd⟩ := List.mem_flatten.mp hadd
    refine mem_gained_of_register hok ?_ hd
    rw [hc]
    exact List.mem_map_of_mem (List.mem_append_left _ (List.mem_map_of_mem hbatch))

/-- When a target is to be taken off, and from then on, everything wanted stands. -/
theorem standing_of_deregister (hl : 0 < limit) (hb : a.Between h.instances wanted)
    {before after later : List Exchange} {x : Exchange}
    (hheading : Heading wanted (before ++ x :: after))
    (hinOrder : (before ++ x :: after).map Exchange.shift? <+: (a.shifts limit).map some)
    (hok : ∀ y ∈ before, y.succeeded = true) (hx : x.isDeregister = true)
    (hp : later <+: x :: after) (hd : d ∈ wanted) :
    Standing h.instances (before ++ later) d := by
  have hmoment : before ++ later <+: before ++ x :: after :=
    (List.prefix_append_right_inj _).mpr hp
  have hto : Heading wanted (before ++ later) := fun y hy => hheading y (hmoment.subset hy)
  apply hto.standing hd
  apply (hb.mem_of_wanted hd).imp_right
  intro hadd
  -- by then the batches to register have all had their calls, and none of these failed
  rw [← (cut_cut hl a.toAdd).covers] at hadd
  obtain ⟨batch, hbatch, hd⟩ := List.mem_flatten.mp hadd
  have hmade := register_before_deregister hinOrder hx batch hbatch
  rw [List.flatMap_append]
  exact List.mem_append_left _ (mem_gained_of_register hok hmade hd)

/-- Whatever the calls are answered, targets are aligned step by step. -/
theorem stepwise_of_takes (hl : 0 < limit) (hi : Texts h.instances) (hw : Texts wanted)
    (ha : alignment h.instances wanted = .ok a) {outcome : Except Fault Bool}
    (hx : (alignProgram limit h wanted).Takes course (outcome, h')) :
    Stepwise limit h wanted a course outcome h' := by
  have hb := between_of_alignment hi hw ha
  obtain ⟨shifts, result, hends, hcarries⟩ := ends_of_takes_alignProgram hl hi hw ha hx
  have hpre := hends.prefix_shifts
  have htoward : ∀ shift ∈ shifts, shift.Toward wanted := fun shift hs =>
    toward_of_mem_shifts hb hl (hpre.subset hs)
  have hheading := hcarries.heading htoward
  have hinOrder : course.map Exchange.shift? <+: (a.shifts limit).map some :=
    hcarries.inOrder.trans (hpre.map some)
  have hleft := hcarries.follows hi hw htoward
  refine
    { inOrder := hinOrder
      stops := ?_
      handed := ?_
      left := hleft
      keeps := ?_
      patient := ?_
      complete := ?_
      stuck := ?_ }
  · rintro before x after fault rfl hfault
    obtain ⟨-, -, hlast⟩ := hcarries.split
    obtain ⟨rfl, rfl⟩ := hlast fault hfault
    cases hends
    exact ⟨rfl, rfl⟩
  · rintro before x after rfl
    obtain ⟨⟨done, shift, h₀, hdone, hbefore, he⟩, -, -⟩ := hcarries.split
    have hmade : ∀ s ∈ done, s.Toward wanted := fun s hs =>
      htoward s (hdone.subset (List.mem_append_left _ hs))
    exact ⟨shift, h₀, hbefore.follows hi hw hmade, he⟩
  · intro before hp d hd hdw
    have hbefore : Heading wanted before := fun x hx => hheading x (hp.subset hx)
    exact hbefore.standing hdw (Or.inl hd)
  · rintro before x after rfl hdereg later hp d hd
    obtain ⟨-, hok, -⟩ := hcarries.split
    exact standing_of_deregister hl hb hheading hinOrder hok hdereg hp hd
  · intro hok hadd hremove
    obtain ⟨rfl, hcomplete⟩ := hcarries.complete hok
    rcases hends.cases_of_ok with ⟨-, -, rfl, rfl⟩ | ⟨hn, -⟩
    · obtain ⟨hregisters, hderegisters⟩ := countP_of_complete hl hcomplete
      exact ⟨rfl, hregisters, hderegisters,
        mem_instances_of_complete hl hb hok hheading hcomplete hleft⟩
    · exact absurd ⟨hadd, hremove⟩ hn
  · intro hok hn
    obtain ⟨rfl, -⟩ := hcarries.complete hok
    rcases hends.cases_of_ok with ⟨hadd, hremove, -, -⟩ | ⟨-, he⟩
    · exact absurd ⟨hadd, hremove⟩ hn
    · exact he

end Stepwise

structure StepwiseOn (limit : Int) (h : Handle) (wanted : List Document) (a : Alignment)
    (cloud : Cloud) (calls : List (Cloud × Request)) (progress : Progress Bool) : Prop where
  inTurn : InTurn cloud calls progress.cloud
  stepwise : Stepwise limit h wanted a (calls.map Exchange.on) progress.outcome progress.handle
  /-- At every moment the load balancer has what stands as its targets, if at first it had the
  instances of the handle. -/
  targets : cloud.Mirrors h → ∀ before after, calls = before ++ after →
    ∃ (met : Cloud) (targets : List Document), InTurn cloud before met ∧
      Ledger.get? h.arn met.targets = some targets ∧
      ∀ d, d ∈ targets ↔ Standing h.instances (before.map Exchange.on) d

theorem stepwiseOn_alignTargets {limit : Int} {h : Handle} {wanted : List Document} {a : Alignment}
    (hl : 0 < limit) (hi : Texts h.instances) (hw : Texts wanted)
    (ha : alignment h.instances wanted = .ok a) (cloud : Cloud) :
    StepwiseOn limit h wanted a cloud ((alignProgram limit h wanted).requests cloud)
      (alignTargets limit cloud h wanted) := by
  have hturn := (alignProgram limit h wanted).inTurn_requests cloud
  have htakes := (alignProgram limit h wanted).takes_requests cloud
  rw [run_alignProgram] at hturn htakes
  generalize (alignProgram limit h wanted).requests cloud = calls at hturn htakes
  have hstep := stepwise_of_takes hl hi hw ha htakes
  refine ⟨hturn, hstep, ?_⟩
  rintro ⟨targets, hg, hmirror⟩ before after rfl
  obtain ⟨met, hbefore, -⟩ := hturn.split
  have htargets : Texts targets := hi.mono fun d hd => (hmirror d).mpr hd
  have hb := between_of_alignment hi hw ha
  have hcalls : ∀ x ∈ before, ∃ (shift : Shift) (h₀ : Handle), x.2 = shift.request h₀ ∧
      h₀.arn = h.arn ∧ shift.Toward wanted := by
    intro x hx
    obtain ⟨l, r, rfl⟩ := List.append_of_mem hx
    have hcourse : ((l ++ x :: r) ++ after).map Exchange.on =
        l.map Exchange.on ++ Exchange.on x :: (r ++ after).map Exchange.on := by simp
    obtain ⟨shift, h₀, hf, he⟩ := hstep.handed _ _ _ hcourse
    have hshift : (Exchange.on x).shift? = some shift := by
      have hon : Exchange.on x = ⟨shift.request h₀, (Exchange.on x).answer⟩ := by rw [← he]
      rw [hon, Exchange.shift?_request]
    have hdue : some shift ∈ (a.shifts limit).map some := by
      rw [← hshift]
      exact hstep.inOrder.subset (List.mem_map_of_mem (List.mem_map_of_mem
        (List.mem_append_left _ hx)))
    obtain ⟨_, hs, ⟨⟩⟩ := List.mem_map.mp hdue
    exact ⟨shift, h₀, he, hf.arn, toward_of_mem_shifts hb hl hs⟩
  obtain ⟨targets', hmet, hmem⟩ := targets_inTurn hcalls hbefore hg htargets hw
  exact ⟨met, targets', hbefore, hmet, fun d =>
    (hmem d).trans (standing_of_mem_iff (hmirror d).symm)⟩

structure AlignsStepwise (limit : Int) (h : Handle) (wanted : List Document) (a : Alignment) :
    Prop where
  between : a.Between h.instances wanted
  registers : Cut limit a.toAdd (cut limit a.toAdd)
  deregisters : Cut limit a.toRemove (cut limit a.toRemove)
  /-- Whoever answers the calls, with success or failure. -/
  anyone : ∀ course outcome h', (alignProgram limit h wanted).Takes course (outcome, h') →
    Stepwise limit h wanted a course outcome h'
  onCloud : ∀ cloud, StepwiseOn limit h wanted a cloud
    ((alignProgram limit h wanted).requests cloud) (alignTargets limit cloud h wanted)

/-- For every handle with texts as instances, all wanted texts and every limit per call, targets are
brought in line step by step, whichever calls fail. -/
theorem alignTargets_stepwise {limit : Int} (hl : 0 < limit) {h : Handle} {wanted : List Document}
    (hi : Texts h.instances) (hw : Texts wanted) :
    ∃ a : Alignment, AlignsStepwise limit h wanted a := by
  obtain ⟨a, ha, -, -⟩ := exists_alignment hi hw
  exact ⟨a,
    { between := between_of_alignment hi hw ha
      registers := cut_cut hl a.toAdd
      deregisters := cut_cut hl a.toRemove
      anyone := fun course outcome h' hx => stepwise_of_takes hl hi hw ha hx
      onCloud := stepwiseOn_alignTargets hl hi hw ha }⟩

end Engine

namespace Shop

def stale : Handle where
  arn := "arn:web"
  name := .string "web"
  instances := [.string "i-1", .string "i-1"]

/-- One target per call, and the call to register the new one fails. -/
theorem stepwise_around_outage :
    (0 : Int) < 1 ∧ Texts stale.instances ∧ Texts [.string "i-2", .string "i-2"] ∧
      (Engine.alignTargets 1 { outages := [{ operation := .register, reason := "down" }] } stale
        [.string "i-2", .string "i-2"]).handle = stale ∧
      ∃ a : Engine.Alignment, Engine.AlignsStepwise 1 stale [.string "i-2", .string "i-2"] a := by
  have hi : Texts stale.instances := by simp [stale, Texts, Document.IsText]
  have hw : Texts [.string "i-2", .string "i-2"] := by simp [Texts, Document.IsText]
  exact ⟨by decide, hi, hw, by decide +kernel, Engine.alignTargets_stepwise (by decide) hi hw⟩

/-- With as many targets per call as the power of two at which quotients vanish no call is made and
none fails, but the missing instance is not registered and the other one not taken off. -/
theorem unaligned_at_vanishing :
    (0 : Int) < (Nat.pow 2 vanishingPower : Nat) ∧
      (Engine.alignProgram (Nat.pow 2 vanishingPower : Nat) stale [.string "i-2"]).Takes []
        (.error (.groupCount 0), stale) ∧
      (∀ x ∈ ([] : List Exchange), x.succeeded = true) ∧
      ([] : List Exchange).countP Exchange.isRegister ≠
        ceilDiv [Document.string "i-2"].length (Nat.pow 2 vanishingPower) := by
  have hpos : 0 < Nat.pow 2 vanishingPower := Nat.zero_lt_of_lt (lt_pow_vanishingPower le_rfl)
  have halign : Engine.alignment stale.instances [.string "i-2"] =
      .ok ⟨[.string "i-2"], [.string "i-1"]⟩ := by decide +kernel
  have hcut : ¬ Cuttable (Nat.pow 2 vanishingPower : Nat) [Document.string "i-2"] := by
    rintro (hnil | hlt)
    · exact absurd hnil (List.cons_ne_nil _ _)
    · rw [Int.toNat_natCast, List.length_singleton, Nat.one_mul] at hlt
      exact Nat.lt_irrefl _ hlt
  -- what the number is does not matter, as long as it is not evaluated
  generalize Nat.pow 2 vanishingPower = most at hpos hcut ⊢
  have hmost : (0 : Int) < (most : Nat) := Int.natCast_pos.mpr hpos
  refine ⟨hmost, ?_, nofun, ?_⟩
  · have hn : ¬ (Engine.Alignment.mk [.string "i-2"] [.string "i-1"]).isNothing = true := by decide
    rw [Engine.alignProgram, halign]
    dsimp only
    rw [if_neg hn, Engine.inBatchesProgram, groupsForLimit_of_not_cuttable hmost hcut]
    exact .done
  · have hone : 0 < ceilDiv 1 most := ceilDiv_pos Nat.one_pos hpos
    exact Nat.ne_of_lt hone

end Shop

end IngressControl
