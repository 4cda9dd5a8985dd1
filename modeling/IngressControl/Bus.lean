import IngressControl.Event

/-!
The event bus. Every subscription has a queue of its own; an event for which the queue has no room
is dropped. A subscription that has ended keeps what is in its queue.
-/

namespace IngressControl

inductive QueueItem
  | event (e : Event)
  | stop
deriving DecidableEq, Repr

inductive Delivery
  | event (e : Event)
  | stop
  | pending
deriving DecidableEq, Repr

/-- A subscription: the events it wants, its queue, and whether it is still subscribed. -/
structure Subscription where
  wants : Event → Bool
  queue : List QueueItem := []
  active : Bool := true

namespace Subscription

/-- Whether a queue of some capacity has room; a capacity below one is no limit. -/
def hasRoom (capacity : Int) (s : Subscription) : Bool :=
  decide (capacity ≤ 0) || decide ((s.queue.length : Int) < capacity)

def offer (capacity : Int) (item : QueueItem) (s : Subscription) : Subscription :=
  if s.hasRoom capacity then { s with queue := s.queue ++ [item] } else s

def receive (capacity : Int) (e : Event) (s : Subscription) : Subscription :=
  if s.active then s.offer capacity (.event e) else s

/-- Ends a subscription and marks the end in its queue if there is room. -/
def finish (capacity : Int) (s : Subscription) : Subscription :=
  if s.active then { s.offer capacity .stop with active := false } else s

/-- Takes items off a queue up to the first wanted event or the end; unwanted events are lost. -/
def take (wants : Event → Bool) : List QueueItem → Delivery × List QueueItem
  | [] => (.pending, [])
  | .stop :: rest => (.stop, rest)
  | .event e :: rest => if wants e then (.event e, rest) else take wants rest

def next (s : Subscription) : Delivery × Subscription :=
  let (delivery, queue) := take s.wants s.queue
  (delivery, { s with queue := queue })

end Subscription

structure Bus where
  capacity : Int := 256
  subscriptions : List Subscription := []

namespace Bus

/-- Adds a subscription; its number is the count of those made before. -/
def subscribe (bus : Bus) (wants : Event → Bool) : Nat × Bus :=
  (bus.subscriptions.length,
    { bus with subscriptions := bus.subscriptions ++ [{ wants := wants }] })

def unsubscribe (bus : Bus) (number : Nat) : Bus :=
  { bus with subscriptions := bus.subscriptions.modify number (Subscription.finish bus.capacity) }

def publish (bus : Bus) (e : Event) : Bus :=
  { bus with subscriptions := bus.subscriptions.map (Subscription.receive bus.capacity e) }

def next (bus : Bus) (number : Nat) : Delivery × Bus :=
  match bus.subscriptions[number]? with
  | some s =>
    let (delivery, s) := s.next
    (delivery, { bus with subscriptions := bus.subscriptions.set number s })
  | none => (.pending, bus)

/-- The wanted events that wait in the queue of a number, and the bus without them. -/
def drain (bus : Bus) (number : Nat) : List Event × Bus :=
  match bus.subscriptions[number]? with
  | some s =>
    let waiting := s.queue.filterMap (fun item => match item with
      | .event e => if s.wants e then some e else none
      | .stop => none)
    (waiting, { bus with subscriptions := bus.subscriptions.set number { s with queue := [] } })
  | none => ([], bus)

def count (bus : Bus) : Nat := bus.subscriptions.countP Subscription.active

end Bus

/-- Where events are recorded: nowhere, on a bus that fails, or on a working bus. -/
inductive Recorder
  | silent
  | broken
  | bus
deriving DecidableEq, Repr

/-- Records an event. A failure of the bus is not passed on. -/
def Recorder.record (recorder : Recorder) (e : Event) (bus : Bus) : Bus :=
  match recorder with
  | .bus => bus.publish e
  | .silent => bus
  | .broken => bus

end IngressControl
