import BridleModel.Json
import BridleModel.Library.BoundedQueue
import BridleModel.Library.Execution

-- The event bus of the process. A subscription is an asynchronous generator: it runs from one `yield`, or one wait
-- for its empty queue, to the next, and everything else happens in between.
namespace Events

def ringBufferSize : Nat :=
  200

def subscriberQueueSize : Nat :=
  100

structure Event where
  seq        : Nat
  type       : String
  occurredAt : String
  payload    : Json.Dict

-- Where the generator stands. While it walks over the ring it holds the part that is still to come, and the number
-- of changes of the ring at which the walk has begun: a walk over a deque that has changed since raises.
inductive Phase
  | replaying (rest : List Event) (changes : Nat)
  | following
  | raised
  | closed

-- `start` is the ring as the subscription has found it, and `since` what has been published from then on; the
-- generator reads neither.
structure Subscriber where
  lastSeq  : Option Int
  types    : Option (List String)
  phase    : Phase
  queue    : List Event
  received : List Event
  start    : List Event
  since    : List Event

namespace Subscriber

variable (s : Subscriber)

-- The filter by types, which an empty set does not apply
def wanted (e : Event) : Bool :=
  match s.types with
  | none       => true
  | some types => types = [] ∨ e.type ∈ types

def replays (e : Event) : Bool :=
  s.lastSeq.all (fun last : Int => last < e.seq) ∧ s.wanted e

-- The queue is among the subscribers of the bus.
def subscribed : Bool :=
  match s.phase with
  | .replaying _ _ | .following => true
  | .raised | .closed           => false

def deliver (e : Event) : Subscriber :=
  if s.subscribed then
    { s with queue := BoundedQueue.put subscriberQueueSize s.queue e, since := s.since ++ [e] }
  else
    s

-- The loop over the queue, up to the next event that is yielded or the next wait
def follow : Subscriber :=
  match s.queue.dropWhile (!s.wanted ·) with
  | []         => { s with phase := .following, queue := [] }
  | e :: queue => { s with phase := .following, queue, received := s.received ++ [e] }

-- The generator goes on. `changes` is how often the ring has changed so far.
def resume (changes : Nat) : Subscriber :=
  match s.phase with
  | .following           => s.follow
  | .raised | .closed    => s
  | .replaying rest walk =>
    if walk ≠ changes then
      { s with phase := .raised }
    else
      match rest.dropWhile (!s.replays ·) with
      | []        => s.follow
      | e :: rest => { s with phase := .replaying rest walk, received := s.received ++ [e] }

end Subscriber

-- Each event that is published changes the ring once, and the ring changes in no other way.
structure EventBus where
  seq         : Nat
  ring        : List Event
  subscribers : List Subscriber

namespace EventBus

variable (bus : EventBus)

def empty : EventBus where
  seq         := 0
  ring        := []
  subscribers := []

def publish (type occurredAt : String) (payload : Json.Dict) : EventBus :=
  let event : Event := { seq := bus.seq + 1, type, occurredAt, payload }
  {
    seq         := bus.seq + 1
    ring        := BoundedQueue.put ringBufferSize bus.ring event
    subscribers := bus.subscribers.map (·.deliver event)
  }

-- `subscribe` up to its first `yield` or wait
def subscribe (lastSeq : Option Int) (types : Option (List String)) : EventBus :=
  let s : Subscriber := {
    lastSeq, types
    phase    := .replaying bus.ring bus.seq
    queue    := []
    received := []
    start    := bus.ring
    since    := []
  }
  { bus with subscribers := bus.subscribers ++ [s.resume bus.seq] }

end EventBus

inductive Action
  | publish (type occurredAt : String) (payload : Json.Dict)
  | subscribe (lastSeq : Option Int) (types : Option (List String))
  | resume (k : Nat)
  | close (k : Nat)

def system : TransitionSystem EventBus Action where
  init bus    := bus = .empty
  step bus a  :=
    match a with
    | .publish type occurredAt payload => some (bus.publish type occurredAt payload)
    | .subscribe lastSeq types         => some (bus.subscribe lastSeq types)
    | .resume k                        => some { bus with subscribers := bus.subscribers.modify k (·.resume bus.seq) }
    | .close k                         => some { bus with subscribers := bus.subscribers.modify k ({ · with phase := .closed }) }

end Events
