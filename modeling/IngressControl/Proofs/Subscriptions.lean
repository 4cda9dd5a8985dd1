import IngressControl.Bus
import Mathlib.Data.List.Basic

/-! Each subscription of a bus is on its own. What it yields and what is in its queue is made by its
own history alone: the events published once it is there, its own end, and its own steps. -/

namespace IngressControl

inductive Subscription.Turn
  | publish (e : Event)
  | unsubscribe
  | next

inductive Bus.Step
  | subscribe (wants : Event → Bool)
  | unsubscribe (number : Nat)
  | publish (e : Event)
  | next (number : Nat)

def Delivery.events : Delivery → List Event
  | .event e => [e]
  | .stop => []
  | .pending => []

namespace Subscription

def after (capacity : Int) (s : Subscription) : Turn → Subscription
  | .publish e => s.receive capacity e
  | .unsubscribe => s.finish capacity
  | .next => s.next.2

def yielded (s : Subscription) : Turn → List Event
  | .publish _ => []
  | .unsubscribe => []
  | .next => s.next.1.events

def run (capacity : Int) (s : Subscription) (turns : List Turn) : Subscription :=
  turns.foldl (after capacity) s

def yields (capacity : Int) (s : Subscription) : List Turn → List Event
  | [] => []
  | turn :: rest => s.yielded turn ++ yields capacity (s.after capacity turn) rest

end Subscription

namespace Bus

def Step.turn? (number : Nat) : Step → Option Subscription.Turn
  | .subscribe _ => none
  | .unsubscribe n => if n = number then some .unsubscribe else none
  | .publish e => some (.publish e)
  | .next n => if n = number then some .next else none

def after (bus : Bus) : Step → Bus
  | .subscribe wants => (bus.subscribe wants).2
  | .unsubscribe number => bus.unsubscribe number
  | .publish e => bus.publish e
  | .next number => (bus.next number).2

def yielded (bus : Bus) (number : Nat) : Step → List Event
  | .subscribe _ => []
  | .unsubscribe _ => []
  | .publish _ => []
  | .next n => if n = number then (bus.next n).1.events else []

def run (bus : Bus) (steps : List Step) : Bus := steps.foldl after bus

def yields (number : Nat) (bus : Bus) : List Step → List Event
  | [] => []
  | step :: rest => bus.yielded number step ++ yields number (bus.after step) rest

def queue (bus : Bus) (number : Nat) : List QueueItem :=
  (bus.subscriptions[number]?).elim [] Subscription.queue

def since : Nat → List Step → Option ((Event → Bool) × List Step)
  | _, [] => none
  | 0, .subscribe wants :: rest => some (wants, rest)
  | number + 1, .subscribe _ :: rest => since number rest
  | number, .unsubscribe _ :: rest => since number rest
  | number, .publish _ :: rest => since number rest
  | number, .next _ :: rest => since number rest

/-- The history of the subscription of a number: its filter and its turns. -/
def history (number : Nat) (steps : List Step) :
    Option ((Event → Bool) × List Subscription.Turn) :=
  (since number steps).map fun (wants, later) => (wants, later.filterMap (Step.turn? number))

section Alone

variable {bus : Bus} {number : Nat} {s : Subscription}

@[simp] theorem capacity_after (bus : Bus) (step : Step) :
    (bus.after step).capacity = bus.capacity := by
  cases step with
  | next n =>
    simp only [after, next]
    split <;> rfl
  | _ => rfl

/-- A subscription that is there takes the turn that a step is for it. -/
theorem subscription_after (h : bus.subscriptions[number]? = some s) (step : Step) :
    (bus.after step).subscriptions[number]? =
        some ((step.turn? number).elim s (s.after bus.capacity)) ∧
      bus.yielded number step = (step.turn? number).elim [] s.yielded := by
  have hlt : number < bus.subscriptions.length := (List.getElem?_eq_some_iff.mp h).1
  cases step with
  | subscribe wants => exact ⟨(List.getElem?_append_left hlt).trans h, rfl⟩
  | publish e =>
    refine ⟨?_, rfl⟩
    change (bus.subscriptions.map (Subscription.receive bus.capacity e))[number]? = _
    rw [List.getElem?_map, h]
    rfl
  | unsubscribe n =>
    constructor
    · change (bus.subscriptions.modify n (Subscription.finish bus.capacity))[number]? = _
      rw [List.getElem?_modify, h]
      by_cases hn : n = number <;> simp [Step.turn?, hn, Subscription.after]
    · by_cases hn : n = number <;> simp [Step.turn?, yielded, hn, Subscription.yielded]
  | next n =>
    by_cases hn : n = number
    · subst hn
      have hself : (bus.subscriptions.set n s.next.2)[n]? = some s.next.2 := by
        rw [List.getElem?_set_self hlt]
      simp only [after, next, h, yielded, if_true, Step.turn?]
      exact ⟨hself, rfl⟩
    · simp only [yielded, if_neg hn, Step.turn?, Option.elim_none, and_true, after, next]
      split
      · exact (List.getElem?_set_ne hn).trans h
      · exact h

theorem run_of_some (h : bus.subscriptions[number]? = some s) (steps : List Step) :
    (bus.run steps).subscriptions[number]? =
        some (s.run bus.capacity (steps.filterMap (Step.turn? number))) ∧
      bus.yields number steps = s.yields bus.capacity (steps.filterMap (Step.turn? number)) := by
  induction steps generalizing bus s with
  | nil => exact ⟨h, rfl⟩
  | cons step rest ih =>
    obtain ⟨hafter, hyielded⟩ := subscription_after h step
    obtain ⟨hrun, hyields⟩ := ih hafter
    rw [yields, hyielded, hyields, capacity_after]
    refine ⟨hrun.trans ?_, ?_⟩
    · rw [capacity_after]
      cases ht : step.turn? number <;> simp [ht, Subscription.run]
    · cases ht : step.turn? number <;> simp [ht, Subscription.yields]

/-- A step makes a subscription, or it leaves those that there are at their numbers and brings
nothing to any other. -/
theorem after_cases (bus : Bus) (step : Step) : (∃ wants, step = .subscribe wants) ∨
    (bus.after step).subscriptions.length = bus.subscriptions.length ∧
      (∀ number, bus.subscriptions.length ≤ number → bus.yielded number step = []) ∧
      ∀ number rest, since number (step :: rest) = since number rest := by
  cases step with
  | subscribe wants => exact Or.inl ⟨wants, rfl⟩
  | unsubscribe n =>
    exact Or.inr ⟨List.length_modify _ _ _, fun _ _ => rfl, fun k _ => by cases k <;> rfl⟩
  | publish e => exact Or.inr ⟨List.length_map _, fun _ _ => rfl, fun k _ => by cases k <;> rfl⟩
  | next n =>
    refine Or.inr ⟨?_, fun number h => ?_, fun k _ => by cases k <;> rfl⟩
    · simp only [after, next]
      split
      · exact List.length_set
      · rfl
    · by_cases hn : n = number
      · subst hn
        simp only [yielded, if_true, next, List.getElem?_eq_none h]
        rfl
      · rw [yielded, if_neg hn]

/-- A subscription that is not there yet is made by the steps, if at all, and lives from then on. -/
theorem run_of_none (h : bus.subscriptions.length ≤ number) (steps : List Step) :
    (bus.run steps).subscriptions[number]? =
        (since (number - bus.subscriptions.length) steps).map (fun made =>
          Subscription.run bus.capacity { wants := made.1 }
            (made.2.filterMap (Step.turn? number))) ∧
      bus.yields number steps =
        (since (number - bus.subscriptions.length) steps).elim [] (fun made =>
          Subscription.yields bus.capacity { wants := made.1 }
            (made.2.filterMap (Step.turn? number))) := by
  induction steps generalizing bus with
  | nil => exact ⟨List.getElem?_eq_none h, by cases number - bus.subscriptions.length <;> rfl⟩
  | cons step rest ih =>
    rcases bus.after_cases step with ⟨wants, rfl⟩ | ⟨hlength, hyielded, hsince⟩
    · rcases Nat.eq_or_lt_of_le h with rfl | hlt
      · -- this is the step that makes it
        have hmade : (bus.after (.subscribe wants)).subscriptions[bus.subscriptions.length]? =
            some { wants := wants } := by
          simp [after, subscribe]
        rw [Nat.sub_self]
        exact run_of_some hmade rest
      · obtain ⟨k, hk⟩ : ∃ k, number - bus.subscriptions.length = k + 1 :=
          ⟨number - bus.subscriptions.length - 1, by omega⟩
        have hlength : (bus.after (.subscribe wants)).subscriptions.length =
            bus.subscriptions.length + 1 := List.length_append
        have hrest := @ih (bus.after (.subscribe wants)) (by omega)
        rw [hlength, show number - (bus.subscriptions.length + 1) = k by omega] at hrest
        rw [hk]
        exact hrest
    · have hrest := @ih (bus.after step) (hlength ▸ h)
      rw [hlength, capacity_after] at hrest
      rw [hsince, yields, hyielded number h]
      exact hrest

end Alone

/-- What becomes of a subscription on a new bus is made by its own history. -/
theorem run_eq (capacity : Int) (number : Nat) (steps : List Step) :
    (run { capacity := capacity } steps).subscriptions[number]? =
        (history number steps).map (fun made =>
          Subscription.run capacity { wants := made.1 } made.2) ∧
      yields number { capacity := capacity } steps =
        (history number steps).elim [] (fun made =>
          Subscription.yields capacity { wants := made.1 } made.2) := by
  have hnew := @run_of_none { capacity := capacity } number (Nat.zero_le number) steps
  rw [history, Option.map_map, Option.elim_map]
  exact hnew

end Bus

end IngressControl
