import IngressControl.Proofs.Subscriptions
import Mathlib.Data.List.Induction

/-! What a bus delivers. Due to a subscription are the events that it wants among those that are
published while it is subscribed and has room in its own queue. It yields them one by one in the
order in which they are published, and nothing else. -/

namespace IngressControl

namespace Subscription

def waitingIn (wants : Event → Bool) : List QueueItem → List Event
  | [] => []
  | .event e :: rest => if wants e then e :: waitingIn wants rest else waitingIn wants rest
  | .stop :: rest => waitingIn wants rest

def waiting (s : Subscription) : List Event := waitingIn s.wants s.queue

def admitted (capacity : Int) (s : Subscription) : Turn → List Event
  | .publish e => if s.active && s.hasRoom capacity && s.wants e then [e] else []
  | .unsubscribe => []
  | .next => []

/-- The queue keeps to the capacity. Only when the subscription has ended its end may be marked,
behind all events. -/
structure Orderly (capacity : Int) (s : Subscription) : Prop where
  bounded : 0 < capacity → (s.queue.length : Int) ≤ capacity
  queue : ∃ (events : List Event) (rest : List QueueItem), s.queue = events.map .event ++ rest ∧
    (rest = [] ∨ s.active = false ∧ rest = [.stop])

def Turn.isEnd : Turn → Bool
  | .unsubscribe => true
  | .publish _ => false
  | .next => false

section Turns

variable {capacity : Int} {s : Subscription}

@[simp] theorem waitingIn_append (wants : Event → Bool) (items rest : List QueueItem) :
    waitingIn wants (items ++ rest) = waitingIn wants items ++ waitingIn wants rest := by
  induction items with
  | nil => rfl
  | cons item items ih =>
    cases item with
    | stop => exact ih
    | event e =>
      simp only [List.cons_append, waitingIn, ih]
      split <;> rfl

/-- What is taken off a queue is the first wanted event, or nothing if there is none. -/
theorem take_spec (wants : Event → Bool) (events : List Event) {rest : List QueueItem}
    (hr : rest = [] ∨ rest = [.stop]) :
    (∃ (e : Event) (later : List Event), later.length ≤ events.length ∧
      take wants (events.map .event ++ rest) = (.event e, later.map .event ++ rest) ∧
      waitingIn wants (events.map .event ++ rest) =
        e :: waitingIn wants (later.map .event ++ rest)) ∨
    ((take wants (events.map .event ++ rest) = (.pending, []) ∨
        take wants (events.map .event ++ rest) = (.stop, [])) ∧
      waitingIn wants (events.map .event ++ rest) = []) := by
  induction events with
  | nil => rcases hr with rfl | rfl <;> simp [take, waitingIn]
  | cons e events ih =>
    simp only [List.map_cons, List.cons_append, take, waitingIn]
    by_cases hw : wants e = true
    · exact Or.inl ⟨e, events, Nat.le_succ _, by rw [if_pos hw], by rw [if_pos hw]⟩
    · rw [if_neg hw, if_neg hw]
      exact ih.imp_left fun ⟨e', later, hle, h⟩ => ⟨e', later, Nat.le_succ_of_le hle, h⟩

theorem orderly_new (wants : Event → Bool) : Orderly capacity { wants := wants } where
  bounded h := Int.le_of_lt h
  queue := ⟨[], [], rfl, Or.inl rfl⟩

/-- What is offered to a queue is added at its end if there is room. -/
@[simp] theorem queue_offer (capacity : Int) (item : QueueItem) (s : Subscription) :
    (s.offer capacity item).queue = s.queue ++ if s.hasRoom capacity then [item] else [] := by
  unfold offer
  split <;> simp

/-- An event is queued for an active subscription that has room. -/
theorem queue_receive (capacity : Int) (e : Event) (s : Subscription) :
    (s.receive capacity e).queue =
      s.queue ++ if s.active && s.hasRoom capacity then [.event e] else [] := by
  unfold receive
  split
  · simp [queue_offer, *]
  · simp [*]

/-- An offer does not fill a queue beyond its capacity. -/
@[simp] theorem length_offer (h : Orderly capacity s) (item : QueueItem) (hc : 0 < capacity) :
    ((s.offer capacity item).queue.length : Int) ≤ capacity := by
  rw [queue_offer]
  split
  · rename_i hroom
    simp only [hasRoom, Bool.or_eq_true, decide_eq_true_eq] at hroom
    simp only [List.length_append, List.length_singleton]
    omega
  · rw [List.append_nil]
    exact h.bounded hc

@[simp] theorem wants_offer (capacity : Int) (item : QueueItem) (s : Subscription) :
    (s.offer capacity item).wants = s.wants := by
  unfold offer
  split <;> rfl

@[simp] theorem active_offer (capacity : Int) (item : QueueItem) (s : Subscription) :
    (s.offer capacity item).active = s.active := by
  unfold offer
  split <;> rfl

/-- An offer adds to what waits if there is room and the item is wanted. -/
@[simp] theorem waiting_offer (capacity : Int) (item : QueueItem) (s : Subscription) :
    (s.offer capacity item).waiting =
      s.waiting ++ if s.hasRoom capacity then waitingIn s.wants [item] else [] := by
  rw [waiting, wants_offer, queue_offer, waitingIn_append, waiting]
  split <;> rfl

/-- The next step brings the first of what waits and leaves the rest. -/
theorem Orderly.next (h : Orderly capacity s) : Orderly capacity s.next.2 ∧
    ((∃ e, s.next.1 = .event e ∧ s.waiting = e :: s.next.2.waiting) ∨
      (s.next.1 = .pending ∨ s.next.1 = .stop) ∧ s.waiting = [] ∧ s.next.2.waiting = []) := by
  obtain ⟨events, rest, hq, hend⟩ := h.queue
  have hbounded := h.bounded
  simp only [Subscription.next, waiting, hq] at hbounded ⊢
  rcases take_spec s.wants events (hend.imp_right And.right) with
    ⟨e, later, hle, htake, hwaiting⟩ | ⟨htake, hwaiting⟩
  · rw [htake]
    refine ⟨⟨fun hc => ?_, later, rest, rfl, hend⟩, Or.inl ⟨e, rfl, hwaiting⟩⟩
    have hlength := hbounded hc
    simp only [List.length_append, List.length_map] at hlength ⊢
    omega
  · have hempty : Orderly capacity { s with queue := [] } :=
      ⟨fun hc => Int.le_of_lt hc, [], [], rfl, Or.inl rfl⟩
    rcases htake with htake | htake <;> rw [htake]
    · exact ⟨hempty, Or.inr ⟨Or.inl rfl, hwaiting, rfl⟩⟩
    · exact ⟨hempty, Or.inr ⟨Or.inr rfl, hwaiting, rfl⟩⟩

/-- What waits and what is taken in is what is yielded and what waits afterwards. -/
theorem Orderly.after (h : Orderly capacity s) (turn : Turn) :
    Orderly capacity (s.after capacity turn) ∧
      s.waiting ++ s.admitted capacity turn =
        s.yielded turn ++ (s.after capacity turn).waiting := by
  obtain ⟨events, rest, hq, hend⟩ := h.queue
  have hevents (ha : s.active = true) : s.queue = events.map .event := by
    rcases hend with rfl | ⟨hended, -⟩
    · simpa using hq
    · exact absurd (ha.symm.trans hended) (by decide)
  cases turn with
  | publish e =>
    simp only [Subscription.after, receive, yielded, List.nil_append]
    cases ha : s.active with
    | false => simpa [admitted, ha] using h
    | true =>
      rw [if_pos rfl]
      refine ⟨⟨length_offer h _, ?_⟩, ?_⟩
      · rw [queue_offer, hevents ha]
        split
        · exact ⟨events ++ [e], [], by simp, Or.inl rfl⟩
        · exact ⟨events, [], rfl, Or.inl rfl⟩
      · rw [waiting_offer]
        cases hroom : s.hasRoom capacity <;> simp [admitted, ha, hroom, waitingIn]
  | unsubscribe =>
    simp only [Subscription.after, finish, yielded, admitted, List.nil_append, List.append_nil]
    cases ha : s.active with
    | false => exact ⟨by simpa using h, rfl⟩
    | true =>
      rw [if_pos rfl]
      refine ⟨⟨length_offer h .stop, ?_⟩, ?_⟩
      · simp only [queue_offer, hevents ha]
        split
        · exact ⟨events, [.stop], rfl, Or.inr ⟨trivial, rfl⟩⟩
        · exact ⟨events, [], rfl, Or.inl rfl⟩
      · -- the mark of the end is no event
        have hstop := waiting_offer capacity .stop s
        simp only [waitingIn, ite_self, List.append_nil] at hstop
        exact hstop.symm
  | next =>
    simp only [Subscription.after, admitted, List.append_nil, yielded]
    obtain ⟨horderly, ⟨e, hbrings, hwaiting⟩ | ⟨hidle, hwaiting, hleft⟩⟩ := h.next
    · exact ⟨horderly, by rw [hbrings, hwaiting]; rfl⟩
    · refine ⟨horderly, ?_⟩
      rcases hidle with hidle | hidle <;> rw [hidle, hwaiting, hleft] <;> rfl

/-- A subscription stays orderly through all of its turns. -/
theorem Orderly.run (h : Orderly capacity s) (turns : List Turn) :
    Orderly capacity (s.run capacity turns) := by
  induction turns generalizing s with
  | nil => exact h
  | cons turn rest ih => exact ih (h.after turn).1

/-- A turn keeps the filter, and a subscription is active until its end. -/
theorem after_kept (capacity : Int) (s : Subscription) (turn : Turn) :
    (s.after capacity turn).wants = s.wants ∧
      (s.after capacity turn).active = (s.active && !turn.isEnd) := by
  cases turn with
  | publish e =>
    simp only [Subscription.after, receive]
    split <;> simp [Turn.isEnd]
  | unsubscribe =>
    simp only [Subscription.after, finish]
    split <;> simp_all [Turn.isEnd]
  | next => simp [Subscription.after, next, Turn.isEnd]

/-- A subscription keeps what it wants, and is active until a turn ends it. -/
theorem run_kept (capacity : Int) (s : Subscription) (turns : List Turn) :
    (s.run capacity turns).wants = s.wants ∧
      (s.run capacity turns).active = (s.active && !turns.any Turn.isEnd) := by
  induction turns generalizing s with
  | nil => exact ⟨rfl, by simp [run]⟩
  | cons turn rest ih =>
    obtain ⟨hwants, hactive⟩ := s.after_kept capacity turn
    obtain ⟨hwants', hactive'⟩ := ih (s.after capacity turn)
    refine ⟨hwants'.trans hwants, hactive'.trans ?_⟩
    rw [hactive, List.any_cons, Bool.not_or, Bool.and_assoc]

end Turns

end Subscription

namespace Bus

def Step.ends (number : Nat) : Step → Bool
  | .unsubscribe n => n == number
  | .subscribe _ => false
  | .publish _ => false
  | .next _ => false

/-- Whether the subscription of a number has been made and not been ended by steps on a new bus, and
has room in its queue after them. -/
def isOpen (capacity : Int) (number : Nat) (steps : List Step) : Bool :=
  (since number steps).any fun made => !made.2.any (Step.ends number) &&
    (decide (capacity ≤ 0) ||
      decide ((((run { capacity := capacity } steps).queue number).length : Int) < capacity))

def isWanted (number : Nat) (steps : List Step) (e : Event) : Bool :=
  (since number steps).any fun made => made.1 e

def admitted (capacity : Int) (number : Nat) (before : List Step) : Step → List Event
  | .publish e => if isOpen capacity number before && isWanted number before e then [e] else []
  | .subscribe _ => []
  | .unsubscribe _ => []
  | .next _ => []

/-- The events that are due to the subscription of a number from steps behind others. -/
def dueFrom (capacity : Int) (number : Nat) (before : List Step) : List Step → List Event
  | [] => []
  | step :: rest =>
    admitted capacity number before step ++ dueFrom capacity number (before ++ [step]) rest

/-- The events that are due to the subscription of a number on a new bus, as they are published. -/
def due (capacity : Int) (number : Nat) (steps : List Step) : List Event :=
  dueFrom capacity number [] steps

section Due

variable {capacity : Int} {number : Nat} {steps : List Step}

theorem dueFrom_append_singleton (before steps : List Step) (step : Step) :
    dueFrom capacity number before (steps ++ [step]) =
      dueFrom capacity number before steps ++ admitted capacity number (before ++ steps) step := by
  induction steps generalizing before with
  | nil => simp [dueFrom]
  | cons first rest ih => simp [dueFrom, ih]

theorem yields_append_singleton (bus : Bus) (steps : List Step) (step : Step) :
    bus.yields number (steps ++ [step]) =
      bus.yields number steps ++ (bus.run steps).yielded number step := by
  induction steps generalizing bus with
  | nil => simp [yields, run]
  | cons first rest ih => simp [yields, ih, run]

@[simp] theorem run_append_singleton (bus : Bus) (steps : List Step) (step : Step) :
    bus.run (steps ++ [step]) = (bus.run steps).after step := List.foldl_append

/-- The turns of a subscription end it where a step of the bus does. -/
theorem any_isEnd (later : List Step) :
    (later.filterMap (Step.turn? number)).any Subscription.Turn.isEnd =
      later.any (Step.ends number) := by
  induction later with
  | nil => rfl
  | cons step rest ih =>
    cases step with
    | subscribe wants => simpa [Step.turn?, Step.ends] using ih
    | publish e => simpa [Step.turn?, Step.ends, Subscription.Turn.isEnd] using ih
    | unsubscribe n =>
      by_cases hn : n = number <;> simp [Step.turn?, Step.ends, Subscription.Turn.isEnd, hn, ih]
    | next n =>
      by_cases hn : n = number <;> simp [Step.turn?, Step.ends, Subscription.Turn.isEnd, hn, ih]

/-- What is there of a subscription that has been made. -/
theorem exists_subscription (capacity : Int) {made : (Event → Bool) × List Step}
    (h : since number steps = some made) :
    ∃ s, (run { capacity := capacity } steps).subscriptions[number]? = some s ∧
      s.wants = made.1 ∧ s.active = !made.2.any (Step.ends number) ∧
      Subscription.Orderly capacity s := by
  have hrun := (run_eq capacity number steps).1
  rw [history, h] at hrun
  obtain ⟨hwants, hactive⟩ := Subscription.run_kept capacity { wants := made.1 }
    (made.2.filterMap (Step.turn? number))
  refine ⟨_, hrun, hwants, ?_, (Subscription.orderly_new made.1).run _⟩
  rw [any_isEnd] at hactive
  simpa using hactive

/-- There is no subscription of a number before it is made. -/
theorem subscription_eq_none (capacity : Int) (h : since number steps = none) :
    (run { capacity := capacity } steps).subscriptions[number]? = none := by
  rw [(run_eq capacity number steps).1, history, h]
  rfl

theorem queue_of_some {bus : Bus} {s : Subscription} (h : bus.subscriptions[number]? = some s) :
    bus.queue number = s.queue := by
  rw [queue, h]
  rfl

theorem queue_of_none {bus : Bus} (h : bus.subscriptions[number]? = none) :
    bus.queue number = [] := by
  rw [queue, h]
  rfl

/-- A subscription is open if it is active and has room. -/
theorem isOpen_eq {s : Subscription} {made : (Event → Bool) × List Step}
    (h : since number steps = some made)
    (hs : (run { capacity := capacity } steps).subscriptions[number]? = some s)
    (ha : s.active = !made.2.any (Step.ends number)) :
    isOpen capacity number steps = (s.active && s.hasRoom capacity) := by
  rw [isOpen, h, Option.any_some, queue_of_some hs, ha]
  rfl

/-- A step behind others is due to a subscription that is there as far as the subscription takes it
in. -/
theorem admitted_eq {s : Subscription} {made : (Event → Bool) × List Step}
    (h : since number steps = some made)
    (hs : (run { capacity := capacity } steps).subscriptions[number]? = some s)
    (hw : s.wants = made.1) (ha : s.active = !made.2.any (Step.ends number)) (step : Step) :
    admitted capacity number steps step = (step.turn? number).elim [] (s.admitted capacity) := by
  cases step with
  | publish e =>
    rw [admitted, isOpen_eq h hs ha, isWanted, h, Option.any_some, ← hw]
    rfl
  | subscribe wants => rfl
  | unsubscribe n =>
    by_cases hn : n = number <;> simp [admitted, Step.turn?, hn, Subscription.admitted]
  | next n => by_cases hn : n = number <;> simp [admitted, Step.turn?, hn, Subscription.admitted]

/-- Nothing comes to a number that has no subscription, and one that is made there is empty. -/
theorem yielded_of_none {bus : Bus} (h : bus.subscriptions[number]? = none) (step : Step) :
    bus.yielded number step = [] ∧
      ((bus.after step).subscriptions[number]?).elim [] Subscription.waiting = [] := by
  have hle : bus.subscriptions.length ≤ number := List.getElem?_eq_none_iff.mp h
  rcases bus.after_cases step with ⟨wants, rfl⟩ | ⟨hlength, hyielded, -⟩
  · refine ⟨rfl, ?_⟩
    change ((bus.subscriptions ++ [{ wants := wants }])[number]?).elim [] Subscription.waiting = []
    rw [List.getElem?_append_right hle]
    cases number - bus.subscriptions.length <;> rfl
  · rw [List.getElem?_eq_none (hlength ▸ hle)]
    exact ⟨hyielded number hle, rfl⟩

@[simp] theorem capacity_run (bus : Bus) (steps : List Step) :
    (bus.run steps).capacity = bus.capacity := by
  induction steps generalizing bus with
  | nil => rfl
  | cons step rest ih => exact (ih _).trans (bus.capacity_after step)

/-- What is due has been yielded or waits in the queue. -/
theorem due_eq (capacity : Int) (number : Nat) (steps : List Step) :
    due capacity number steps = yields number { capacity := capacity } steps ++
      ((run { capacity := capacity } steps).subscriptions[number]?).elim []
        Subscription.waiting := by
  induction steps using List.reverseRecOn with
  | nil => rfl
  | append_singleton steps step ih =>
    rw [due, dueFrom_append_singleton, ← due, ih, yields_append_singleton, run_append_singleton,
      List.nil_append]
    cases hs : since number steps with
    | none =>
      have hnone := subscription_eq_none capacity hs
      obtain ⟨hyielded, hwaiting⟩ := yielded_of_none hnone step
      have hadmitted : admitted capacity number steps step = [] := by
        cases step <;> simp [admitted, isOpen, hs]
      rw [hnone, hyielded, hwaiting, hadmitted]
      rfl
    | some made =>
      obtain ⟨s, hsub, hwants, hactive, horderly⟩ := exists_subscription capacity hs
      obtain ⟨hafter, hyielded⟩ := subscription_after hsub step
      rw [hsub, hafter, hyielded, admitted_eq hs hsub hwants hactive, capacity_run]
      cases step.turn? number with
      | none => simp
      | some turn =>
        -- the turn moves events from what is due to what waits, and from there to what is yielded
        have hturn := (horderly.after turn).2
        simpa [List.append_assoc] using hturn

/-- Publishing puts an event into the queues that are open. -/
theorem queue_publish (capacity : Int) (number : Nat) (steps : List Step) (e : Event) :
    (run { capacity := capacity } (steps ++ [.publish e])).queue number =
      (run { capacity := capacity } steps).queue number ++
        if isOpen capacity number steps then [.event e] else [] := by
  rw [run_append_singleton]
  cases hs : since number steps with
  | none =>
    have hnone := subscription_eq_none capacity hs
    have hafter : ((run { capacity := capacity } steps).after (.publish e)).subscriptions[number]? =
        none := by
      rw [after, publish, List.getElem?_map, hnone]
      rfl
    simp [queue_of_none hnone, queue_of_none hafter, isOpen, hs]
  | some made =>
    obtain ⟨s, hsub, -, hactive, -⟩ := exists_subscription capacity hs
    rw [queue_of_some (subscription_after hsub (.publish e)).1, queue_of_some hsub, capacity_run,
      isOpen_eq hs hsub hactive]
    exact Subscription.queue_receive capacity e s

/-- Subscriptions with one history are served alike. -/
theorem alone_of_history {number' : Nat} {steps' : List Step}
    (h : history number' steps' = history number steps) :
    yields number' { capacity := capacity } steps' = yields number { capacity := capacity } steps ∧
      (run { capacity := capacity } steps').queue number' =
        (run { capacity := capacity } steps).queue number := by
  obtain ⟨hsubs, hyields⟩ := run_eq capacity number steps
  obtain ⟨hsubs', hyields'⟩ := run_eq capacity number' steps'
  rw [queue, queue, hsubs, hsubs', hyields, hyields', h]
  exact ⟨rfl, rfl⟩

end Due

structure Serves (capacity : Int) (number : Nat) (steps : List Step) : Prop where
  inOrder : yields number { capacity := capacity } steps <+: due capacity number steps
  /-- While something due is left, the next step brings the first of it. -/
  next : ∀ e rest, due capacity number steps =
      yields number { capacity := capacity } steps ++ e :: rest →
    ((run { capacity := capacity } steps).next number).1 = .event e
  idle : due capacity number steps = yields number { capacity := capacity } steps →
    ((run { capacity := capacity } steps).next number).1 = .pending ∨
      ((run { capacity := capacity } steps).next number).1 = .stop
  bounded : 0 < capacity →
    (((run { capacity := capacity } steps).queue number).length : Int) ≤ capacity
  publish : ∀ e, (run { capacity := capacity } (steps ++ [.publish e])).queue number =
    (run { capacity := capacity } steps).queue number ++
      if isOpen capacity number steps then [.event e] else []
  /-- A subscription with the same history yields the same and has the same in its queue, whatever
  else is done with its bus. -/
  alone : ∀ number' steps', history number' steps' = history number steps →
    yields number' { capacity := capacity } steps' = yields number { capacity := capacity } steps ∧
      (run { capacity := capacity } steps').queue number' =
        (run { capacity := capacity } steps).queue number

/-- On a bus of any capacity and after any steps every subscription is served. -/
theorem serves (capacity : Int) (number : Nat) (steps : List Step) :
    Serves capacity number steps := by
  have hdue := due_eq capacity number steps
  cases hs : since number steps with
  | none =>
    have hnone := subscription_eq_none capacity hs
    rw [hnone, Option.elim_none, List.append_nil] at hdue
    have hnext : ((run { capacity := capacity } steps).next number).1 = .pending := by
      simp only [Bus.next, hnone]
    exact {
      inOrder := hdue ▸ List.prefix_refl _
      next := fun e rest h => by simp [hdue] at h
      idle := fun _ => Or.inl hnext
      bounded := fun hc => by rw [queue_of_none hnone]; exact Int.le_of_lt hc
      publish := queue_publish capacity number steps
      alone := fun _ _ h => alone_of_history h }
  | some made =>
    obtain ⟨s, hsub, -, -, horderly⟩ := exists_subscription capacity hs
    rw [hsub, Option.elim_some] at hdue
    have hnext : ((run { capacity := capacity } steps).next number).1 = s.next.1 := by
      simp only [Bus.next, hsub]
    -- the next step brings the first of what waits, which is what is due and not yet yielded
    obtain ⟨-, hcases⟩ := horderly.next
    exact {
      inOrder := hdue ▸ List.prefix_append _ _
      next := fun e rest h => by
        rw [hdue, List.append_cancel_left_eq] at h
        rcases hcases with ⟨e', hbrings, hwaiting⟩ | ⟨-, hwaiting, -⟩
        · obtain ⟨rfl, -⟩ := List.cons.inj (hwaiting.symm.trans h)
          exact hnext.trans hbrings
        · cases hwaiting.symm.trans h
      idle := fun h => by
        rw [hdue, List.append_right_eq_self] at h
        rcases hcases with ⟨e', -, hwaiting⟩ | ⟨hidle, -, -⟩
        · cases hwaiting.symm.trans h
        · rwa [hnext]
      bounded := fun hc => by rw [queue_of_some hsub]; exact horderly.bounded hc
      publish := queue_publish capacity number steps
      alone := fun _ _ h => alone_of_history h }

end Bus

end IngressControl
