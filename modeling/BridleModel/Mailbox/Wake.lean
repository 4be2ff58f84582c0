import BridleModel.Library.Execution

-- `MailboxWakeSignal` with one consumer on the loop of the signal. The threads that notify the signal take the lock
-- between any two sections of the consumer that hold it; callbacks of the loop run only while the consumer does not.
namespace Mail

inductive WaitResult
  | changed
  | closed
  | timeout
deriving DecidableEq, Repr

-- Where the consumer stands: between two waits, with a version that it has read, behind the lock section of
-- `bind_running_loop` (with `advance_pending`), behind that call, at its future, or at the end of its wait.
inductive Consumer
  | idle
  | read (version : Nat)
  | bound (version : Nat) (advancePending : Bool)
  | checking (version : Nat)
  | waiting (version : Nat) (future : Nat) (done : Bool)
  | returned (version : Nat) (result : WaitResult)
deriving DecidableEq, Repr

-- `posting` counts the calls of `notify` between their lock section and `call_soon_threadsafe`, and `callbacks` the
-- calls of `_advance_on_loop` that the loop has still to run. `told` says whether a call of `notify` has returned
-- True since the consumer last read the version; the code reads it nowhere.
structure WakeSignal where
  loop                : Bool
  version             : Nat
  pendingNotification : Bool
  closed              : Bool
  waiters             : List Nat
  futures             : Nat
  posting             : Nat
  callbacks           : Nat
  consumer            : Consumer
  told                : Bool
deriving DecidableEq, Repr

namespace WakeSignal

variable (s : WakeSignal)

def new : WakeSignal where
  loop                := false
  version             := 0
  pendingNotification := false
  closed              := false
  waiters             := []
  futures             := 0
  posting             := 0
  callbacks           := 0
  consumer            := .idle
  told                := false

-- The futures of the waiter set get their result.
def resolveWaiters : WakeSignal :=
  {
    s with
    waiters  := []
    consumer :=
      match s.consumer with
      | .waiting version future done => .waiting version future (done || s.waiters.contains future)
      | consumer                     => consumer
  }

-- `_advance_on_loop`
def advanceOnLoop : WakeSignal :=
  if s.closed then s else { s with version := s.version + 1 }.resolveWaiters

def closeOnLoop : WakeSignal :=
  if s.closed then s else { s with closed := true, version := s.version + 1 }.resolveWaiters

-- The lock section of `notify`
def notify : WakeSignal :=
  if s.closed then s
  else if s.loop then { s with posting := s.posting + 1 }
  else { s with pendingNotification := true, told := true }

-- The lock section of `bind_running_loop`
def bindRunningLoop : WakeSignal :=
  { s with loop := true, pendingNotification := false }

-- The last lock section of `wait_for_change` before it awaits the future
def check (version : Nat) : WakeSignal :=
  if s.closed then { s with consumer := .returned version .closed }
  else if s.version ≠ version then { s with consumer := .returned version .changed }
  else
    {
      s with
      waiters  := s.futures :: s.waiters
      futures  := s.futures + 1
      consumer := .waiting version s.futures false
    }

-- The `finally` of `wait_for_change`
def finish (future : Nat) (consumer : Consumer) : WakeSignal :=
  { s with waiters := s.waiters.erase future, consumer }

-- The thread of the loop is not inside the consumer.
def atRest : Bool :=
  match s.consumer with
  | .bound _ _ | .checking _ => false
  | _                        => true

end WakeSignal

-- A refusal is a `notify` that finds the loop closed, in its lock section or in `call_soon_threadsafe`.
inductive WakeAction
  | notify
  | post
  | refuse
  | bind
  | close
  | callback
  | read
  | wait
  | advance
  | check
  | wake
  | expire
  | cancel
deriving DecidableEq, Repr

namespace WakeSignal

variable (s : WakeSignal)

def act : WakeAction → Option WakeSignal
  | .notify   => some s.notify
  | .post     =>
    if 0 < s.posting then some { s with posting := s.posting - 1, callbacks := s.callbacks + 1, told := true } else none
  | .refuse   => if 0 < s.posting then some { s with posting := s.posting - 1 } else none
  | .bind     =>
    if ¬s.atRest then none
    else if s.pendingNotification then some s.bindRunningLoop.advanceOnLoop
    else some s.bindRunningLoop
  | .close    => if s.atRest then some s.closeOnLoop else none
  | .callback =>
    if s.atRest ∧ 0 < s.callbacks then some { s with callbacks := s.callbacks - 1 }.advanceOnLoop else none
  | .read     =>
    match s.consumer with
    | .idle | .returned _ _ => some { s with consumer := .read s.version, told := false }
    | _                     => none
  | .wait     =>
    match s.consumer with
    | .read version => some { s.bindRunningLoop with consumer := .bound version s.pendingNotification }
    | _             => none
  | .advance  =>
    match s.consumer with
    | .bound version true  => some { s with consumer := .checking version }.advanceOnLoop
    | .bound version false => some { s with consumer := .checking version }
    | _                    => none
  | .check    =>
    match s.consumer with
    | .checking version => some (s.check version)
    | _                 => none
  | .wake     =>
    match s.consumer with
    | .waiting version future true =>
      some (s.finish future (.returned version (if s.closed then .closed else .changed)))
    | _                            => none
  | .expire   =>
    match s.consumer with
    | .waiting version future _ => some (s.finish future (.returned version .timeout))
    | _                         => none
  | .cancel   =>
    match s.consumer with
    | .waiting _ future _ => some (s.finish future .idle)
    | _                   => none

end WakeSignal

def wakeSystem : TransitionSystem WakeSignal WakeAction where
  init s := s = .new
  step   := WakeSignal.act

end Mail
