import IngressControl.Proofs.Endings
import Mathlib.Logic.Hydra

/-! The reconciliations of a plan as tasks that run side by side. No more of them are at work than
the engine allows; they take turns in any order, and every call may return any handle or fail.
However that goes, all tasks come to an end, each with something that its resource can become. -/

namespace IngressControl.Engine

inductive Task
  | waiting (r : Resource)
  | working (r : Resource) (rest : Program Ending)
  | finished (r : Resource)

namespace Task

def isWorking : Task → Bool
  | working _ _ => true
  | _ => false

inductive Steps (context : Context) (now : Moment) (busy : Nat) : Task → Task → Prop
  | pass {r : Resource} (tainted : r.tainted = true) :
      Steps context now busy (waiting r) (finished r)
  | enter {r : Resource} (untainted : r.tainted = false)
      (room : (busy : Int) < context.maxConcurrent) :
      Steps context now busy (waiting r) (working r (program context r))
  | call {r : Resource} {request : Request} {next : Except Fault Handle → Program Ending}
      (answer : Except Fault Handle) :
      Steps context now busy (working r (.ask request next)) (working r (next answer))
  | leave {r : Resource} {e : Ending} :
      Steps context now busy (working r (.done e)) (finished (conclude now r e).1)

def Follows (context : Context) (now : Moment) (after before : Task) : Prop :=
  ∃ busy, Steps context now busy before after

section Steps

variable {context : Context} {now : Moment}

theorem acc_finished (r : Resource) : Acc (Follows context now) (finished r) :=
  ⟨_, fun _ ⟨_, h⟩ => nomatch h⟩

/-- The work on an entry comes to an end, whatever the service answers. -/
theorem acc_working (r : Resource) (rest : Program Ending) :
    Acc (Follows context now) (working r rest) := by
  -- a call can be answered in infinitely many ways, so no number bounds the steps that are left
  induction rest with
  | done e =>
    refine ⟨_, fun after ⟨busy, h⟩ => ?_⟩
    cases h
    exact acc_finished _
  | ask request next ih =>
    refine ⟨_, fun after ⟨busy, h⟩ => ?_⟩
    cases h with
    | call answer => exact ih answer

/-- A task makes finitely many steps, whatever it is answered. -/
theorem wellFounded_follows : WellFounded (Follows context now) := by
  refine ⟨fun t => ?_⟩
  cases t with
  | waiting r =>
    refine ⟨_, fun after ⟨busy, h⟩ => ?_⟩
    cases h with
    | pass _ => exact acc_finished r
    | enter _ _ => exact acc_working r _
  | working r rest => exact acc_working r rest
  | finished r => exact acc_finished r

/-- A task that is not over can make a step if there is room. -/
theorem exists_steps (now : Moment) (busy : Nat) {t : Task} (ht : ∀ r, t ≠ finished r)
    (hroom : t.isWorking = false → (busy : Int) < context.maxConcurrent) :
    ∃ t', Steps context now busy t t' := by
  cases t with
  | waiting r =>
    cases hr : r.tainted with
    | true => exact ⟨_, .pass hr⟩
    | false => exact ⟨_, .enter hr (hroom rfl)⟩
  | working r rest =>
    cases rest with
    | done e => exact ⟨_, .leave⟩
    | ask request next => exact ⟨_, .call (.error (.outage ""))⟩
  | finished r => exact absurd rfl (ht r)

inductive For (context : Context) (now : Moment) (r : Resource) : Task → Prop
  | waiting : For context now r (waiting r)
  | working {rest : Program Ending} (untainted : r.tainted = false)
      (possible : ∀ {e}, rest.Yields e → (program context r).Yields e) :
      For context now r (working r rest)
  | finished {x : Resource × Option Event} (h : Becomes context now r x) :
      For context now r (finished x.1)

/-- A task stays the task of its entry. -/
theorem For.steps {busy : Nat} {r : Resource} {t t' : Task} (hf : For context now r t)
    (hs : Steps context now busy t t') : For context now r t' := by
  cases hf with
  | waiting =>
    cases hs with
    | pass tainted => exact .finished (.untouched tainted)
    | enter untainted _ => exact .working untainted id
  | working untainted possible =>
    cases hs with
    | call answer => exact .working untainted fun h => possible (.ask answer h)
    | leave => exact .finished (.concluded untainted (possible .done))
  | finished _ => nomatch hs

end Steps

end Task

inductive Advance (context : Context) (now : Moment) (busy : Nat) : List Task → List Task → Prop
  | head {t t' : Task} {rest : List Task} (h : t.Steps context now busy t') :
      Advance context now busy (t :: rest) (t' :: rest)
  | tail {t : Task} {rest rest' : List Task} (h : Advance context now busy rest rest') :
      Advance context now busy (t :: rest) (t :: rest')

def Turn (context : Context) (now : Moment) (before after : List Task) : Prop :=
  Advance context now (before.countP Task.isWorking) before after

abbrev Turns (context : Context) (now : Moment) : List Task → List Task → Prop :=
  Relation.ReflTransGen (Turn context now)

section Turns

variable {context : Context} {now : Moment} {busy : Nat} {before after tasks : List Task}
  {planned : ResourceSet}

theorem Advance.cutExpand (h : Advance context now busy before after) :
    Relation.CutExpand (Task.Follows context now) (after : Multiset Task) before := by
  induction h with
  | @head t t' rest h =>
    -- in the multiset of tasks the one that makes the step is replaced by one below it
    rw [← Multiset.cons_coe, ← Multiset.cons_coe, ← Multiset.singleton_add,
      ← Multiset.singleton_add]
    exact Relation.cutExpand_single_add ⟨busy, h⟩ _
  | @tail t rest rest' h ih =>
    rw [← Multiset.cons_coe, ← Multiset.cons_coe, ← Multiset.singleton_add,
      ← Multiset.singleton_add]
    exact (Relation.cutExpand_add_left _).mpr ih

/-- Tasks do not take turns for ever. Each turn puts one of them forward. -/
theorem wellFounded_turn :
    WellFounded fun after before => Turn context now before after :=
  Subrelation.wf (fun h => Advance.cutExpand h)
    (InvImage.wf (fun tasks : List Task => (tasks : Multiset Task))
      Task.wellFounded_follows.cutExpand)

theorem Advance.of_mem {t t' : Task} (ht : t ∈ before) (hs : t.Steps context now busy t') :
    ∃ after, Advance context now busy before after := by
  induction before with
  | nil => cases ht
  | cons first rest ih =>
    rcases List.mem_cons.mp ht with rfl | ht
    · exact ⟨_, .head hs⟩
    · obtain ⟨after, ha⟩ := ih ht
      exact ⟨_, .tail ha⟩

theorem eq_map_finished (h : ∀ t ∈ tasks, ∃ r, t = Task.finished r) :
    ∃ done : ResourceSet, tasks = done.map Task.finished := by
  induction tasks with
  | nil => exact ⟨[], rfl⟩
  | cons t rest ih =>
    obtain ⟨r, rfl⟩ := h t List.mem_cons_self
    obtain ⟨done, rfl⟩ := ih fun t ht => h t (List.mem_cons_of_mem _ ht)
    exact ⟨r :: done, rfl⟩

/-- Some task can make a step as long as not all are over. -/
theorem exists_turn (hc : 0 < context.maxConcurrent) (tasks : List Task) :
    (∃ done : ResourceSet, tasks = done.map Task.finished) ∨
      ∃ after, Turn context now tasks after := by
  by_cases hfinished : ∀ t ∈ tasks, ∃ r, t = Task.finished r
  · exact Or.inl (eq_map_finished hfinished)
  · right
    push Not at hfinished
    obtain ⟨t, ht, hnot⟩ := hfinished
    by_cases hwork : ∃ t ∈ tasks, t.isWorking = true
    · obtain ⟨t, ht, hw⟩ := hwork
      have hnot : ∀ r, t ≠ .finished r := by
        rintro r rfl
        cases hw
      have hroom : t.isWorking = false →
          ((tasks.countP Task.isWorking : Nat) : Int) < context.maxConcurrent := by simp [hw]
      obtain ⟨t', hs⟩ := Task.exists_steps now _ hnot hroom
      exact Advance.of_mem ht hs
    · have hidle : tasks.countP Task.isWorking = 0 := by
        rw [List.countP_eq_zero]
        exact fun t ht hw => hwork ⟨t, ht, hw⟩
      have hroom : ((tasks.countP Task.isWorking : Nat) : Int) < context.maxConcurrent := by
        rw [hidle]
        exact hc
      obtain ⟨t', hs⟩ := Task.exists_steps now _ hnot fun _ => hroom
      exact Advance.of_mem ht hs

theorem Advance.forall₂ (hf : List.Forall₂ (Task.For context now) planned before)
    (ha : Advance context now busy before after) :
    List.Forall₂ (Task.For context now) planned after := by
  induction ha generalizing planned with
  | head hs =>
    cases hf with
    | cons hfirst hrest => exact .cons (hfirst.steps hs) hrest
  | tail _ ih =>
    cases hf with
    | cons hfirst hrest => exact .cons hfirst (ih hrest)

/-- Every task stays one for its resource. -/
theorem forall₂_of_turns (h : Turns context now (planned.map Task.waiting) tasks) :
    List.Forall₂ (Task.For context now) planned tasks := by
  induction h with
  | refl => exact List.forall₂_map_right_iff.mpr (List.forall₂_same.mpr fun _ _ => .waiting)
  | tail _ hturn ih => exact hturn.forall₂ ih

end Turns

def PlanBecomes (context : Context) (now : Moment) : ResourceSet → ResourceSet → Prop :=
  List.Forall₂ fun r r' => ∃ event, Becomes context now r (r', event)

/-- However the tasks of a plan take turns, they come to an end, and then a property holds of what
they ended with. -/
structure Ends (context : Context) (now : Moment) (planned : ResourceSet)
    (P : ResourceSet → Prop) : Prop where
  finite : Acc (fun after before => Turn context now before after) (planned.map Task.waiting)
  last : ∀ {tasks}, Turns context now (planned.map Task.waiting) tasks →
    (∀ after, ¬ Turn context now tasks after) →
    ∃ done : ResourceSet, tasks = done.map Task.finished ∧ P done

section Ends

variable {context : Context} {now : Moment} {planned done : ResourceSet}

theorem Ends.imp {P Q : ResourceSet → Prop} (h : Ends context now planned P)
    (hpq : ∀ {done}, P done → Q done) : Ends context now planned Q where
  finite := h.finite
  last hturns hlast := by
    obtain ⟨done, he, hp⟩ := h.last hturns hlast
    exact ⟨done, he, hpq hp⟩

theorem planBecomes_of_finished
    (h : List.Forall₂ (Task.For context now) planned (done.map Task.finished)) :
    PlanBecomes context now planned done := by
  refine (List.forall₂_map_right_iff.mp h).imp fun r r' hf => ?_
  cases hf with
  | @finished x h => exact ⟨x.2, h⟩

/-- A commit ends in every order of turns, with every entry becoming what it may become. -/
theorem ends_planBecomes (hc : 0 < context.maxConcurrent) (now : Moment) (planned : ResourceSet) :
    Ends context now planned (PlanBecomes context now planned) where
  finite := wellFounded_turn.apply _
  last {tasks} hturns hlast := by
    rcases exists_turn hc tasks with ⟨done, rfl⟩ | ⟨after, hturn⟩
    · exact ⟨done, rfl, planBecomes_of_finished (forall₂_of_turns hturns)⟩
    · exact absurd hturn (hlast after)

/-- The entries keep their owners and their order. -/
theorem PlanBecomes.owners (h : PlanBecomes context now planned done) :
    done.map Resource.owner = planned.map Resource.owner := by
  rw [← List.forall₂_eq_eq_eq, List.forall₂_map_left_iff, List.forall₂_map_right_iff]
  exact h.flip.imp fun _ _ ⟨_, hb⟩ => hb.owner

/-- Reconciling one after the other on a cloud is possible. -/
theorem planBecomes_resourcesAfter (context : Context) (now : Moment) (cloud : Cloud)
    (planned : ResourceSet) :
    PlanBecomes context now planned (resourcesAfter context now cloud planned) := by
  induction planned generalizing cloud with
  | nil => exact .nil
  | cons r rest ih =>
    simpa using .cons ⟨_, becomes_reconcile context now cloud r⟩ (ih _)

end Ends

/-! A cycle that makes its calls on a cloud is one way for the tasks of its plan to take turns. -/

section Serial

variable {context : Context} {now : Moment}

theorem Advance.middle {busy : Nat} {t t' : Task} (hs : t.Steps context now busy t')
    (before after : List Task) :
    Advance context now busy (before ++ t :: after) (before ++ t' :: after) := by
  induction before with
  | nil => exact .head hs
  | cons first rest ih => exact .tail ih

/-- A task that is under way can be finished while the others wait. -/
theorem turns_working (r : Resource) (rest : Program Ending) (cloud : Cloud)
    (before after : List Task) :
    Turns context now (before ++ .working r rest :: after)
      (before ++ .finished (conclude now r (rest.run cloud).1).1 :: after) := by
  induction rest generalizing cloud with
  | done e => exact .single (Advance.middle .leave before after)
  | ask request next ih =>
    exact .head (Advance.middle (.call (request.answer cloud).1) before after) (ih _ _)

/-- With nobody at work a task is let in and goes through. -/
theorem turns_waiting (hc : 0 < context.maxConcurrent) (r : Resource) (cloud : Cloud)
    {before after : List Task} (hb : before.countP Task.isWorking = 0)
    (ha : after.countP Task.isWorking = 0) :
    Turns context now (before ++ .waiting r :: after)
      (before ++ .finished (reconcile context now cloud r).resource :: after) := by
  cases ht : r.tainted with
  | true =>
    simpa [ht] using .single (Advance.middle (.pass ht) before after)
  | false =>
    have hidle : (before ++ Task.waiting r :: after).countP Task.isWorking = 0 := by
      simp [List.countP_append, hb, ha, Task.isWorking]
    rw [reconcile_eq_conclude context now cloud ht]
    refine .head (Advance.middle (.enter ht ?_) before after) (turns_working r _ cloud _ _)
    rw [hidle]
    exact hc

/-- Reconciling a plan one after the other is a way for its tasks to take turns. -/
theorem turns_resourcesAfter (hc : 0 < context.maxConcurrent) (cloud : Cloud)
    (planned : ResourceSet) (done : ResourceSet) :
    Turns context now (done.map Task.finished ++ planned.map Task.waiting)
      (done.map Task.finished ++ (resourcesAfter context now cloud planned).map Task.finished) := by
  induction planned generalizing cloud done with
  | nil => exact .refl
  | cons r rest ih =>
    have hfinished : (done.map Task.finished).countP Task.isWorking = 0 := by
      simp [List.countP_eq_zero, Task.isWorking]
    have hwaiting : (rest.map Task.waiting).countP Task.isWorking = 0 := by
      simp [List.countP_eq_zero, Task.isWorking]
    have hrest := ih (reconcile context now cloud r).cloud
      (done ++ [(reconcile context now cloud r).resource])
    rw [List.map_append, List.append_assoc, List.append_assoc] at hrest
    simpa using (turns_waiting hc r cloud hfinished hwaiting).trans hrest

end Serial

end IngressControl.Engine
