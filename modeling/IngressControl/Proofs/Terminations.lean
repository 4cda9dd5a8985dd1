import IngressControl.Proofs.Deliveries
import Mathlib.Data.List.TakeDrop

/-! How subscriptions end. The mark of the end goes into the same queue as the events, so a
subscription that is ended while its queue is full yields what waits there and then waits for ever;
with room in the queue it comes to its end, whatever is done with the bus later. -/

namespace IngressControl

namespace Subscription

/-- What the steps of a subscription bring from a queue that nothing gets into any more. -/
def remaining (wants : Event → Bool) : List QueueItem → List Delivery
  | [] => []
  | .stop :: rest => .stop :: remaining wants rest
  | .event e :: rest =>
    if wants e then .event e :: remaining wants rest else remaining wants rest

section Remaining

variable {capacity : Int} {s : Subscription} {wants : Event → Bool}

/-- A step takes the first of what remains, or finds that there is nothing left. -/
theorem take_eq (wants : Event → Bool) (items : List QueueItem) :
    (take wants items).1 = (remaining wants items).head?.getD .pending ∧
      remaining wants (take wants items).2 = (remaining wants items).tail := by
  induction items with
  | nil => exact ⟨rfl, rfl⟩
  | cons item rest ih =>
    cases item with
    | stop => exact ⟨rfl, rfl⟩
    | event e =>
      rw [take, remaining]
      split
      · exact ⟨rfl, rfl⟩
      · exact ih

@[simp] theorem remaining_append (wants : Event → Bool) (items rest : List QueueItem) :
    remaining wants (items ++ rest) = remaining wants items ++ remaining wants rest := by
  induction items with
  | nil => rfl
  | cons item items ih =>
    cases item with
    | stop => exact congrArg (Delivery.stop :: ·) ih
    | event e =>
      rw [List.cons_append, remaining, remaining, ih]
      split <;> rfl

theorem remaining_events (wants : Event → Bool) (events : List Event) :
    remaining wants (events.map .event) =
      (waitingIn wants (events.map .event)).map .event := by
  induction events with
  | nil => rfl
  | cons e events ih =>
    rw [List.map_cons, remaining, waitingIn, ih]
    split <;> rfl

/-- What an active subscription that is ended has left to bring: the events that wait, and the end
if there is room for its mark. -/
theorem remaining_finish (ho : Orderly capacity s) (ha : s.active = true) :
    remaining s.wants (s.finish capacity).queue =
      s.waiting.map .event ++ if s.hasRoom capacity then [.stop] else [] := by
  obtain ⟨events, rest, hq, hend⟩ := ho.queue
  have hevents : s.queue = events.map .event := by
    rcases hend with rfl | ⟨hended, -⟩
    · rw [hq, List.append_nil]
    · exact absurd (ha.symm.trans hended) (by decide)
  have hwaiting : remaining s.wants s.queue = s.waiting.map .event := by
    rw [waiting, hevents, remaining_events]
  rw [finish, if_pos ha]
  change remaining s.wants (s.offer capacity .stop).queue = _
  rw [queue_offer, remaining_append, hwaiting]
  split <;> rfl

/-- Nothing gets into the queue of a subscription that has ended. -/
theorem receive_of_ended (ha : s.active = false) (e : Event) : s.receive capacity e = s := by
  rw [receive, if_neg (by simp [ha])]

theorem finish_of_ended (ha : s.active = false) : s.finish capacity = s := by
  rw [finish, if_neg (by simp [ha])]

end Remaining

end Subscription

namespace Bus

def Step.isNext (number : Nat) : Step → Bool
  | .next n => n == number
  | .subscribe _ => false
  | .unsubscribe _ => false
  | .publish _ => false

def answers (number : Nat) (bus : Bus) : List Step → List Delivery
  | [] => []
  | step :: rest =>
    let later := answers number (bus.after step) rest
    if step.isNext number then (bus.next number).1 :: later else later

section Ended

variable {bus : Bus} {number : Nat} {s : Subscription}

/-- Every request for the next event is answered, if only with waiting. -/
theorem length_answers (number : Nat) (bus : Bus) (later : List Step) :
    (bus.answers number later).length = later.countP (Step.isNext number) := by
  induction later generalizing bus with
  | nil => rfl
  | cons step rest ih =>
    rw [answers, List.countP_cons]
    split
    · rw [List.length_cons, ih]
    · exact ih _

/-- A subscription that has ended answers with what is left in its queue, whatever else is done. -/
theorem answers_of_ended (h : bus.subscriptions[number]? = some s) (ha : s.active = false)
    (later : List Step) :
    bus.answers number later =
      (Subscription.remaining s.wants s.queue).takeD (later.countP (Step.isNext number))
        .pending := by
  induction later generalizing bus s with
  | nil => rfl
  | cons step rest ih =>
    have hafter := (subscription_after h step).1
    rw [answers, List.countP_cons]
    -- its own steps take items off the queue, and no other step touches it
    have hkept (hstep : step.isNext number = false)
        (hturn : (step.turn? number).elim s (s.after bus.capacity) = s) :
        (if step.isNext number = true then
            (bus.next number).1 :: answers number (bus.after step) rest
          else answers number (bus.after step) rest) =
          (Subscription.remaining s.wants s.queue).takeD
            (rest.countP (Step.isNext number) + if step.isNext number = true then 1 else 0)
            .pending := by
      rw [hturn] at hafter
      rw [hstep]
      exact ih hafter ha
    cases step with
    | subscribe wants => exact hkept rfl rfl
    | publish e => exact hkept rfl (Subscription.receive_of_ended ha e)
    | unsubscribe n =>
      apply hkept rfl
      by_cases hn : n = number
      · rw [Step.turn?, if_pos hn]
        exact Subscription.finish_of_ended ha
      · rw [Step.turn?, if_neg hn]
        rfl
    | next n =>
      by_cases hn : n = number
      · subst hn
        obtain ⟨hfirst, hrest⟩ := Subscription.take_eq s.wants s.queue
        have hstep : (Step.next n).isNext n = true := beq_self_eq_true n
        rw [Step.turn?, if_pos rfl, Option.elim_some] at hafter
        have hnext : (bus.next n).1 = (Subscription.take s.wants s.queue).1 := by
          simp only [Bus.next, h]
          rfl
        have hlater := ih hafter ha
        rw [if_pos hstep, if_pos hstep, List.takeD_succ, ← hfirst, ← hrest, hnext, hlater]
        rfl
      · apply hkept
        · exact beq_eq_false_iff_ne.mpr hn
        · rw [Step.turn?, if_neg hn]
          rfl

end Ended

/-- Whether the subscription of a number has been made and not been ended by steps. -/
def isCurrent (number : Nat) (steps : List Step) : Bool :=
  (since number steps).any fun made => !made.2.any (Step.ends number)

def waiting (bus : Bus) (number : Nat) : List Event :=
  (bus.subscriptions[number]?).elim [] Subscription.waiting

/-- What the subscription of a number answers when it is ended after steps on a new bus, and other
steps follow. -/
def answersAfter (capacity : Int) (number : Nat) (steps later : List Step) : List Delivery :=
  (run { capacity := capacity } (steps ++ [.unsubscribe number])).answers number later

/-- The subscription of a number comes to its end when it is ended after steps on a new bus:
whatever is done later, each of its steps is answered, first with the events that wait, one by one,
and then with the end. -/
structure Terminates (capacity : Int) (number : Nat) (steps : List Step) : Prop where
  answered : ∀ later,
    (answersAfter capacity number steps later).length = later.countP (Step.isNext number)
  ends : ∀ later,
    let expected := ((run { capacity := capacity } steps).waiting number).map Delivery.event ++
      [.stop]
    answersAfter capacity number steps later <+: expected ∨
      expected <+: answersAfter capacity number steps later

section Terminates

variable {capacity : Int} {number : Nat} {steps : List Step}

/-- What is brought from a list is its beginning, or begins with all of it. -/
theorem prefix_takeD (n : Nat) (ds : List Delivery) :
    ds.takeD n .pending <+: ds ∨ ds <+: ds.takeD n .pending := by
  induction n generalizing ds with
  | zero => exact Or.inl List.nil_prefix
  | succ n ih =>
    cases ds with
    | nil => exact Or.inr List.nil_prefix
    | cons d ds =>
      rw [List.takeD_succ, List.head?_cons, Option.getD_some, List.tail_cons]
      exact (ih ds).imp (List.prefix_cons_inj d).mpr (List.prefix_cons_inj d).mpr

theorem mem_takeD {n : Nat} {ds : List Delivery} {d : Delivery} (h : d ∈ ds.takeD n .pending) :
    d ∈ ds ∨ d = .pending := by
  induction n generalizing ds with
  | zero => exact absurd h List.not_mem_nil
  | succ n ih =>
    cases ds with
    | nil =>
      rw [List.takeD_nil] at h
      exact Or.inr (List.eq_of_mem_replicate h)
    | cons first rest =>
      rw [List.takeD_succ, List.head?_cons, Option.getD_some, List.tail_cons] at h
      rcases List.mem_cons.mp h with rfl | h
      · exact Or.inl List.mem_cons_self
      · exact (ih h).imp_left (List.mem_cons_of_mem _)

theorem exists_current (capacity : Int) (hc : isCurrent number steps = true) :
    ∃ s, (run { capacity := capacity } steps).subscriptions[number]? = some s ∧
      s.active = true ∧ Subscription.Orderly capacity s ∧
      isOpen capacity number steps = s.hasRoom capacity := by
  rw [isCurrent, Option.any_eq_true] at hc
  obtain ⟨made, hmade, hcurrent⟩ := hc
  obtain ⟨s, hs, -, hactive, horderly⟩ := exists_subscription capacity hmade
  refine ⟨s, hs, hactive.trans hcurrent, horderly, ?_⟩
  rw [isOpen_eq hmade hs hactive, hactive, hcurrent, Bool.true_and]

/-- A subscription that is ended answers with the events that wait, and with the end only if there
was room for its mark. -/
theorem answersAfter_eq (hc : isCurrent number steps = true) (later : List Step) :
    answersAfter capacity number steps later =
      (((run { capacity := capacity } steps).waiting number).map Delivery.event ++
        if isOpen capacity number steps then [Delivery.stop] else []).takeD
          (later.countP (Step.isNext number)) .pending := by
  obtain ⟨s, hs, hactive, horderly, hopen⟩ := exists_current capacity hc
  have hended := (subscription_after hs (.unsubscribe number)).1
  rw [Step.turn?, if_pos rfl, Option.elim_some, capacity_run] at hended
  have hinactive : (s.after capacity .unsubscribe).active = false := by
    rw [(s.after_kept capacity .unsubscribe).2]
    exact Bool.and_false _
  have hwants : (s.after capacity .unsubscribe).wants = s.wants :=
    (s.after_kept capacity .unsubscribe).1
  have hwaiting : (run { capacity := capacity } steps).waiting number = s.waiting := by
    rw [waiting, hs]
    rfl
  rw [answersAfter, run_append_singleton, answers_of_ended hended hinactive, hwants, hwaiting,
    hopen]
  congr 1
  exact Subscription.remaining_finish horderly hactive

/-- A subscription that is ended while its queue is full never answers with the end. -/
theorem stop_not_mem_answersAfter (hc : isCurrent number steps = true)
    (hfull : isOpen capacity number steps = false) (later : List Step) :
    Delivery.stop ∉ answersAfter capacity number steps later := by
  intro hstop
  rw [answersAfter_eq hc, hfull] at hstop
  rcases mem_takeD hstop with hmem | hpending
  · simp at hmem
  · cases hpending

end Terminates

/-- Exactly with room in its queue does a subscription come to its end when it is ended. Otherwise
its steps wait for ever once they have brought the events of the queue. -/
theorem terminates_iff (capacity : Int) {number : Nat} {steps : List Step}
    (hc : isCurrent number steps = true) :
    (Terminates capacity number steps ↔ isOpen capacity number steps = true) ∧
      (isOpen capacity number steps = false → ∀ later,
        answersAfter capacity number steps later =
          (((run { capacity := capacity } steps).waiting number).map Delivery.event).takeD
            (later.countP (Step.isNext number)) .pending) := by
  refine ⟨⟨fun ht => ?_, fun hopen => ⟨fun _ => length_answers _ _ _, fun later => ?_⟩⟩,
    fun hfull later => ?_⟩
  · by_contra hn
    have hfull : isOpen capacity number steps = false := Bool.eq_false_iff.mpr hn
    -- as many steps as there are events that wait, and one more for the end
    let waiting := (run { capacity := capacity } steps).waiting number
    let later := List.replicate (waiting.length + 1) (Step.next number)
    have hlength : (answersAfter capacity number steps later).length =
        (waiting.map Delivery.event ++ [Delivery.stop]).length := by
      have hcount : later.countP (Step.isNext number) = waiting.length + 1 := by
        simp [later, List.countP_replicate, Step.isNext]
      rw [ht.answered, hcount, List.length_append, List.length_map]
      rfl
    have heq : answersAfter capacity number steps later =
        waiting.map Delivery.event ++ [Delivery.stop] := by
      rcases ht.ends later with hp | hp
      · exact hp.eq_of_length hlength
      · exact (hp.eq_of_length hlength.symm).symm
    apply stop_not_mem_answersAfter hc hfull later
    rw [heq]
    exact List.mem_append_right _ List.mem_cons_self
  · rw [answersAfter_eq hc, if_pos hopen]
    exact prefix_takeD _ _
  · rw [answersAfter_eq hc, hfull, if_neg (by decide), List.append_nil]

end Bus

namespace Shop

def heard : List Bus.Step := [.subscribe fun _ => true, .publish default]

/-- A queue of two has room for the mark of the end behind one event. -/
theorem terminates_with_room : Bus.isCurrent 0 heard = true ∧ Bus.isOpen 2 0 heard = true ∧
    Bus.Terminates 2 0 heard := by
  have hopen : Bus.isOpen 2 0 heard = true := by decide
  exact ⟨by decide, hopen, (Bus.terminates_iff 2 (by decide)).1.mpr hopen⟩

/-- A queue of one is full of the event. The subscription is ended, yields the event and then waits.
-/
theorem waits_at_full : Bus.isCurrent 0 heard = true ∧ ¬ Bus.Terminates 1 0 heard ∧
    Bus.answersAfter 1 0 heard [.next 0, .next 0] = [.event default, .pending] := by
  have hanswers : Bus.answersAfter 1 0 heard [.next 0, .next 0] = [.event default, .pending] := by
    decide
  refine ⟨by decide, fun ht => ?_, hanswers⟩
  have hends := ht.ends [.next 0, .next 0]
  rw [hanswers] at hends
  revert hends
  decide

end Shop

end IngressControl
