import IngressControl.Proofs.Parallel

/-! The outages of one name. An outage that is set for a name counts the calls for that name only.
So if such outages alone apply to the calls for an ingress, and apply to no others, then they and
the calls for the ingress so far tell which of them are refused, whatever else is called meanwhile.
-/

namespace IngressControl

namespace Outage

variable {call : Call} {name : Document} {o : Outage} {os : List Outage}

/-- Set for the calls of a name. -/
def isOf (name : Document) (o : Outage) : Bool := decide (o.target = some name)

/-- A call that is shown to an outage is refused by it. -/
def due (call : Call) (o : Outage) : Bool :=
  o.applies call && decide (o.after = 0) && decide (0 < o.times)

def passed (call : Call) (o : Outage) : Outage :=
  if o.applies call && decide (0 < o.after) then { o with after := o.after - 1 } else o

theorem meet_cons (call : Call) (o : Outage) (rest : List Outage) :
    meet call (o :: rest) =
      if o.due call then (some o.reason, { o with times := o.times - 1 } :: rest)
      else ((meet call rest).1, o.passed call :: (meet call rest).2) := by
  rw [meet, due, passed]
  cases o.applies call with
  | false => rfl
  | true =>
    by_cases hafter : 0 < o.after
    · have hne : o.after ≠ 0 := Nat.ne_of_gt hafter
      simp [hafter, hne]
    · have hzero : o.after = 0 := by omega
      by_cases htimes : 0 < o.times <;> simp [hzero, htimes]

@[simp] theorem isOf_passed (name : Document) (call : Call) (o : Outage) :
    (o.passed call).isOf name = o.isOf name := by
  unfold passed
  split <;> rfl

theorem applies_passed (call call' : Call) (o : Outage) :
    (o.passed call).applies call' = o.applies call' := by
  unfold passed
  split <;> rfl

theorem due_of_not_applies (h : o.applies call = false) : o.due call = false := by
  rw [due, h]
  rfl

theorem passed_of_not_applies (h : o.applies call = false) : o.passed call = o := by
  rw [passed, h]
  rfl

/-- What holds of all outages by what they apply to and what they are set for still holds after a
call. -/
theorem forall_meet {P : (Call → Bool) → (Document → Bool) → Prop}
    (h : ∀ o ∈ os, P o.applies (fun name => o.isOf name)) :
    ∀ o ∈ (meet call os).2, P o.applies (fun name => o.isOf name) := by
  induction os with
  | nil => exact h
  | cons o rest ih =>
    have hrest := fun o ho => h o (List.mem_cons_of_mem _ ho)
    have hfirst := h o List.mem_cons_self
    rw [meet_cons]
    split
    · intro p hp
      rcases List.mem_cons.mp hp with rfl | hp
      · exact hfirst
      · exact hrest p hp
    · intro p hp
      rcases List.mem_cons.mp hp with rfl | hp
      · have happlies : (o.passed call).applies = o.applies := funext fun _ => applies_passed _ _ _
        have hisOf : (fun name => (o.passed call).isOf name) = fun name => o.isOf name :=
          funext fun _ => isOf_passed _ _ _
        rw [happlies, hisOf]
        exact hfirst
      · exact ih hrest p hp

/-- A call to which only outages of a name apply is refused as those outages tell. -/
theorem meet_own (h : ∀ o ∈ os, o.applies call = true → o.isOf name = true) :
    (meet call os).1 = (meet call (os.filter (isOf name))).1 ∧
      (meet call os).2.filter (isOf name) = (meet call (os.filter (isOf name))).2 := by
  induction os with
  | nil => exact ⟨rfl, rfl⟩
  | cons o rest ih =>
    have ih := ih fun o ho => h o (List.mem_cons_of_mem _ ho)
    cases ho : o.isOf name with
    | true =>
      have hleft : ({ o with times := o.times - 1 } : Outage).isOf name = true := ho
      have hpassed : (o.passed call).isOf name = true := by rw [isOf_passed, ho]
      rw [List.filter_cons_of_pos ho, meet_cons, meet_cons]
      split
      · exact ⟨rfl, List.filter_cons_of_pos hleft⟩
      · refine ⟨ih.1, ?_⟩
        rw [List.filter_cons_of_pos hpassed, ih.2]
    | false =>
      have happlies : o.applies call = false := by
        by_contra ha
        rw [h o List.mem_cons_self (by simpa using ha)] at ho
        cases ho
      have hnot : ¬ o.isOf name = true := by simp [ho]
      rw [List.filter_cons_of_neg hnot, meet_cons, due_of_not_applies happlies,
        passed_of_not_applies happlies]
      exact ⟨ih.1, (List.filter_cons_of_neg hnot).trans ih.2⟩

/-- A call to which no outage of a name applies leaves these as they are. -/
theorem meet_other (h : ∀ o ∈ os, o.isOf name = true → o.applies call = false) :
    (meet call os).2.filter (isOf name) = os.filter (isOf name) := by
  induction os with
  | nil => rfl
  | cons o rest ih =>
    have ih := ih fun o ho => h o (List.mem_cons_of_mem _ ho)
    cases ho : o.isOf name with
    | true =>
      have happlies := h o List.mem_cons_self ho
      rw [meet_cons, due_of_not_applies happlies, passed_of_not_applies happlies]
      exact (List.filter_cons_of_pos ho).trans
        ((congrArg (List.cons o) ih).trans (List.filter_cons_of_pos ho).symm)
    | false =>
      have hnot : ¬ o.isOf name = true := by simp [ho]
      have hleft : ¬ ({ o with times := o.times - 1 } : Outage).isOf name = true := hnot
      have hpassed : ¬ (o.passed call).isOf name = true := by rwa [isOf_passed]
      rw [List.filter_cons_of_neg hnot, meet_cons]
      split
      · exact List.filter_cons_of_neg hleft
      · exact (List.filter_cons_of_neg hpassed).trans ih

def meetAll (os : List Outage) (calls : List Call) : Option String × List Outage :=
  calls.foldl (fun met call => meet call met.2) (none, os)

theorem meetAll_append_singleton (os : List Outage) (calls : List Call) (call : Call) :
    meetAll os (calls ++ [call]) = meet call (meetAll os calls).2 := by
  rw [meetAll, List.foldl_append]
  rfl

end Outage

namespace Cloud

/-- A call meets the outages once, whatever it does. -/
theorem perform_outages {α : Type} (cloud : Cloud) (operation : Operation) (target : Document)
    {act : Cloud → Reply α} (hact : ∀ c, (act c).2.outages = c.outages) :
    (cloud.perform operation target act).2.outages =
      (Outage.meet ⟨operation, target⟩ cloud.outages).2 := by
  simp only [perform]
  cases Outage.meet ⟨operation, target⟩ cloud.outages with
  | mk reason outages =>
    cases reason with
    | none => exact hact _
    | some reason => rfl

theorem withinLimit_outages (cloud : Cloud) (instances : List Document)
    {act : Cloud → Reply Unit} (hact : ∀ c, (act c).2.outages = c.outages) :
    (cloud.withinLimit instances act).2.outages = cloud.outages := by
  unfold withinLimit
  split
  · rfl
  · rfl
  · exact hact cloud

end Cloud

theorem Request.answer_outages (cloud : Cloud) (request : Request) :
    (request.answer cloud).2.outages = (Outage.meet request.call cloud.outages).2 := by
  cases request with
  | create name attributes tags => exact cloud.perform_outages .create _ fun _ => rfl
  | update h attributes =>
    refine cloud.perform_outages .update h.name fun c => ?_
    dsimp only
    split <;> rfl
  | delete h => exact cloud.perform_outages .delete h.name fun _ => rfl
  | register h instances =>
    exact cloud.perform_outages .register h.name fun c =>
      c.withinLimit_outages instances fun _ => rfl
  | deregister h instances =>
    exact cloud.perform_outages .deregister h.name fun c =>
      c.withinLimit_outages instances fun _ => rfl

/-- Outages of a name are set for an ingress: they apply to the calls for it and to no others, and
no other outages apply to these. -/
structure SetFor (name : Document) (id : Identity) (xs : List Issued) (os : List Outage) :
    Prop where
  own : ∀ x ∈ xs, x.resource.owner = .ingress id → ∀ o ∈ os,
    o.applies x.request.call = true → o.isOf name = true
  others : ∀ x ∈ xs, x.resource.owner ≠ .ingress id → ∀ o ∈ os,
    o.isOf name = true → o.applies x.request.call = false

instance (name : Document) (id : Identity) (xs : List Issued) (os : List Outage) :
    Decidable (SetFor name id xs os) :=
  decidable_of_iff
    ((∀ x ∈ xs, x.resource.owner = .ingress id → ∀ o ∈ os,
        o.applies x.request.call = true → o.isOf name = true) ∧
      ∀ x ∈ xs, x.resource.owner ≠ .ingress id → ∀ o ∈ os,
        o.isOf name = true → o.applies x.request.call = false)
    ⟨fun h => ⟨h.1, h.2⟩, fun h => ⟨h.own, h.others⟩⟩

/-- What is set for an ingress before a call is so after it. -/
theorem SetFor.next {name : Document} {id : Identity} {x : Issued} {rest : List Issued}
    {os : List Outage} (hs : SetFor name id (x :: rest) os) :
    SetFor name id rest (Outage.meet x.request.call os).2 where
  own y hy ho := Outage.forall_meet
    (P := fun applies isOf => applies y.request.call = true → isOf name = true)
    (hs.own y (List.mem_cons_of_mem x hy) ho)
  others y hy ho := Outage.forall_meet
    (P := fun applies isOf => isOf name = true → applies y.request.call = false)
    (hs.others y (List.mem_cons_of_mem x hy) ho)

/-- Which calls for an ingress are refused is told by the outages that are set for it. -/
theorem refusedAs_of_setFor {name : Document} {id : Identity} {xs : List Issued}
    {cloud last : Cloud} {os : List Outage} {calls : List Call}
    (hx : InTurn cloud (xs.map fun x => (x.cloud, x.request)) last)
    (hs : SetFor name id xs cloud.outages)
    (hos : cloud.outages.filter (Outage.isOf name) = (Outage.meetAll os calls).2) :
    RefusedAs (fun calls => (Outage.meetAll os calls).1) calls (requestsFor id xs) := by
  -- the outages of the name are moved on by the calls for the ingress and by no others
  induction xs generalizing cloud calls with
  | nil => trivial
  | cons x rest ih =>
    obtain ⟨hcloud, hrest⟩ := hx
    dsimp only at hcloud hrest
    have hnext := hs.next
    rw [← x.request.answer_outages cloud] at hnext
    by_cases ho : x.resource.owner = .ingress id
    · obtain ⟨hrefused, hleft⟩ := Outage.meet_own (hs.own x List.mem_cons_self ho)
      rw [hos, ← Outage.meetAll_append_singleton] at hrefused hleft
      have hcons : requestsFor id (x :: rest) = (x.cloud, x.request) :: requestsFor id rest := by
        simp [requestsFor, ho]
      rw [hcons]
      refine ⟨?_, ih hrest hnext ?_⟩
      · rw [Request.refusal, hcloud]
        exact hrefused
      · rw [x.request.answer_outages]
        exact hleft
    · have hleft := Outage.meet_other (hs.others x List.mem_cons_self ho)
      have hcons : requestsFor id (x :: rest) = requestsFor id rest := by simp [requestsFor, ho]
      rw [hcons]
      refine ih hrest hnext ?_
      rw [x.request.answer_outages, hleft, hos]

end IngressControl
