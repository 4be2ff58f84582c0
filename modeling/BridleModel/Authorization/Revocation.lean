import Mathlib.Logic.Function.Basic
import BridleModel.Authorization.Grant
import BridleModel.Library.Execution

namespace Authorization

inductive StartState
  | pending
  | entered
  | cancelled
deriving DecidableEq, Repr

-- `ContinuationStartReservation`
structure StartReservation where
  lineage : List Nat
  state   : StartState
deriving DecidableEq, Repr

-- `enter` and `cancel`
inductive Finish
  | enter
  | cancel
deriving DecidableEq, Repr

def Finish.state : Finish → StartState
  | enter  => .entered
  | cancel => .cancelled

-- A thread in `execute_authorized` between its guard and the start of the callback, or one in `revoke`
-- that waits with the value that it is going to return.
inductive Thread
  | idle
  | starting (reservation : Nat)
  | waiting (token : RevocationToken) (changed : Bool)
deriving DecidableEq

-- What the threads share. A token is known by its number, a reservation by its place in the list.
structure Revocations where
  tokens        : List RevocationToken
  events        : Finset Nat
  pendingStarts : Nat → Int
  reservations  : List StartReservation
  threads       : Nat → Thread

inductive ExecuteResult
  | denied (decision : AuthorizationDecision)
  | reserved (decision : AuthorizationDecision) (reservation : Nat)

namespace Revocations

def init : Revocations where
  tokens        := []
  events        := ∅
  pendingStarts := fun _ => 0
  reservations  := []
  threads       := fun _ => .idle

-- `token._pending_starts[0] += amount` for each token of a lineage
def addPending (lineage : List Nat) (amount : Int) (pendingStarts : Nat → Int) : Nat → Int :=
  lineage.foldl (fun pending id => Function.update pending id (pending id + amount)) pendingStarts

-- `_reserve_start_locked`
def reserveStartLocked (s : Revocations) (token : RevocationToken) : Option Revocations :=
  match token.lineage [] with
  | none         => none
  | some lineage =>
    if lineage.any (· ∈ s.events) then
      none
    else
      some {
        s with
        pendingStarts := addPending lineage 1 s.pendingStarts
        reservations  := s.reservations ++ [⟨lineage, .pending⟩]
      }

-- `execute_authorized` up to the end of its guard
def executeAuthorized (s : Revocations) (grant : AgentGrant) (action resourceType : String)
    (attributes : Option Attributes) : Revocations × ExecuteResult :=
  if grant.revocation.revoked s.events then
    (s, .denied (decision grant false "grant_revoked"))
  else
    let decided := authorizeActive grant action resourceType attributes
    if ¬decided.allowed s.events then
      (s, .denied decided)
    else
      match s.reserveStartLocked grant.revocation with
      | none    => (s, .denied (decision grant false "grant_revoked"))
      | some s' => (s', .reserved decided s.reservations.length)

-- `_finish`
def finish (s : Revocations) (reservation : Nat) (f : Finish) : Revocations :=
  match s.reservations[reservation]? with
  | none   => s
  | some r =>
    if r.state ≠ .pending then
      s
    else
      {
        s with
        pendingStarts := addPending r.lineage (-1) s.pendingStarts
        reservations  := s.reservations.set reservation { r with state := f.state }
      }

inductive Action
  | create (id : Nat)
  | child (parent : RevocationToken) (id : Nat)
  | revoke (thread : Nat) (token : RevocationToken)
  | wake (thread : Nat)
  | execute (thread : Nat) (grant : AgentGrant) (action resourceType : String)
    (attributes : Option Attributes)
  | start (thread : Nat) (f : Finish)
  | finish (reservation : Nat) (f : Finish)

def fresh (s : Revocations) (id : Nat) : Bool :=
  id ∉ s.tokens.map (·.id)

def moveTo (s : Revocations) (thread : Nat) (next : Thread) : Revocations :=
  { s with threads := Function.update s.threads thread next }

-- The token whose `revoke` returns in the step
def returns (s : Revocations) : Action → Option RevocationToken
  | .revoke _ token => if 0 < s.pendingStarts token.id then none else some token
  | .wake thread    =>
    match s.threads thread with
    | .waiting token _ => some token
    | _                => none
  | _               => none

-- Every lock section is one step, and a step that would have to wait cannot be taken. A thread that
-- runs its callback is idle again.
def step (s : Revocations) : Action → Option Revocations
  | .create id           => if s.fresh id then some { s with tokens := .root id :: s.tokens } else none
  | .child parent id     =>
    if parent ∈ s.tokens ∧ s.fresh id then
      some { s with tokens := .child parent id :: s.tokens }
    else
      none
  | .revoke thread token =>
    if token ∈ s.tokens ∧ s.threads thread = .idle then
      let (events, changed) := token.revoke s.events
      if 0 < s.pendingStarts token.id then
        some ({ s with events }.moveTo thread (.waiting token changed))
      else
        some { s with events }
    else
      none
  | .wake thread         =>
    match s.threads thread with
    | .waiting token _ => if 0 < s.pendingStarts token.id then none else some (s.moveTo thread .idle)
    | _                => none
  | .execute thread grant action resourceType attributes =>
    if grant.revocation ∈ s.tokens ∧ s.threads thread = .idle then
      match s.executeAuthorized grant action resourceType attributes with
      | (s', .denied _)     => some s'
      | (s', .reserved _ i) => some (s'.moveTo thread (.starting i))
    else
      none
  | .start thread f      =>
    match s.threads thread with
    | .starting i => some ((s.finish i f).moveTo thread .idle)
    | _           => none
  | .finish i f          => if i < s.reservations.length then some (s.finish i f) else none

def system : TransitionSystem Revocations Action where
  init s := s = .init
  step   := step

end Revocations
end Authorization
