import BridleModel.Library.Execution
import BridleModel.Outbox.Batch

namespace Outbox

namespace OutboxDb

-- The UPDATE of `_increment_attempt`
def incrementAttempt (db : OutboxDb) (intent : ChangeIntent) (nextRetryAt : String) : OutboxDb :=
  db.modify (fun row => row.messageId = intent.messageId ∧ row.state = .ready)
    (fun row => { row with attempt := row.attempt + 1, nextRetryAt := some nextRetryAt })
    (fun _ _ => ChangeIntent.keys_subset rfl rfl id)

-- A round of the loop of `publish_ready`: `accepted` is the answer of the mailbox.
def publish (db : OutboxDb) (intent : ChangeIntent) (accepted : Bool) (now nextRetryAt : String) :
    OutboxDb :=
  if intent.state ≠ .ready ∨ intent.supersededBy ≠ none then
    db
  else if intent.nextRetryAt.any (now < ·) then
    db
  else if accepted then
    (db.transition intent .delivered .ready).1
  else
    db.incrementAttempt intent nextRetryAt

end OutboxDb

-- The arguments of `reserve` with the message id and the clock value that it draws
structure Reservation where
  relativePath : String
  oldPath      : Option String
  changeType   : ChangeType
  beforeDigest : String
  afterDigest  : String
  stagingPath  : Option String
  messageId    : String
  now          : String

def Reservation.perform (r : Reservation) (capacity : Nat) (db : OutboxDb) :
    Except OutboxError (OutboxDb × ReserveResult) :=
  db.reserve capacity r.relativePath r.oldPath r.changeType r.beforeDigest r.afterDigest r.stagingPath
    r.messageId r.now

-- A transaction on `change_outbox.db`. An intent is what the caller has read of its row.
inductive Operation
  | reserve (r : Reservation)
  | get (messageId : String)
  | markCommitting (intent : ChangeIntent)
  | markReady (intent : ChangeIntent)
  | requireRebase (intent : ChangeIntent)
  | takeFence (intent : ChangeIntent)
  | dropReserved (intent : ChangeIntent)
  | abandonReserved (intent : ChangeIntent)
  | discard (prepared : List Prepared)
  | publish (intent : ChangeIntent) (accepted : Bool) (now nextRetryAt : String)

namespace Operation

def presents : Operation → Option ChangeIntent
  | reserve _ | get _ | discard _ => none
  | markCommitting i | markReady i | requireRebase i | takeFence i | dropReserved i
  | abandonReserved i | publish i _ _ _ => some i

-- The random message id of a reservation
def draws : Operation → Option String
  | reserve r => some r.messageId
  | _         => none

end Operation

-- The database, and the rows that its users have read so far.
structure Shared where
  db   : OutboxDb
  read : List ChangeIntent

namespace Shared

def init : Shared where
  db   := .empty
  read := []

def perform (capacity : Nat) (s : Shared) : Operation → Shared
  | .reserve r             =>
    match r.perform capacity s.db with
    | .ok (db, .reserved intent) => { db, read := intent :: s.read }
    | .ok (db, .refused _)       => { s with db }
    | .error _                   => s
  | .get m                 => { s with read := (s.db.row? m).toList ++ s.read }
  | .markCommitting i      => { s with db := (s.db.markCommitting i).1 }
  | .markReady i           => { s with db := (s.db.markReady i).1 }
  | .requireRebase i       => { s with db := (s.db.transition i .rebaseRequired .committing OutboxDb.blocking_committing).1 }
  | .takeFence i           => { s with db := (s.db.takeFence i).1 }
  | .dropReserved i        => { s with db := (s.db.dropReserved i).1 }
  | .abandonReserved i     => { s with db := s.db.abandonReserved i }
  | .discard prepared      => { s with db := discardIntents s.db prepared }
  | .publish i ok now next => { s with db := s.db.publish i ok now next }

-- Any number of processes: each presents what somebody has read before.
def system (capacity : Nat) : TransitionSystem Shared Operation where
  init s    := s = .init
  step s op := if op.presents.all (· ∈ s.read) then some (s.perform capacity op) else none

end Shared
end Outbox
