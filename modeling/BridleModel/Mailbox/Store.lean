import Mathlib.Data.List.MinMax
import BridleModel.Library.Table
import BridleModel.Python.DateTime
import BridleModel.Python.Text

open Python

namespace Mail

inductive Status
  | pending
  | leased
  | retryWait
  | delivered
deriving DecidableEq, Repr

inductive MailboxError
  | invalidAddress
  | invalidTimestamp
  | overflow -- OverflowError
  | integrity -- sqlite3.IntegrityError
deriving DecidableEq, Repr

section Address

structure AgentAddress where
  projectId  : String
  agentId    : String
  generation : Nat
deriving DecidableEq, Repr

def hexDigit (n : Nat) : Char :=
  Char.ofNat <| if n < 10 then '0'.toNat + n else 'A'.toNat + (n - 10)

-- `quote(value, safe="")` of one byte.
def quoteByte (b : UInt8) : List Char :=
  let c := Char.ofNat b.toNat
  if b.toNat < 128 ∧ (c.isAlphanum ∨ c ∈ ['_', '.', '-', '~']) then
    [c]
  else
    ['%', hexDigit (b.toNat / 16), hexDigit (b.toNat % 16)]

-- `_encode_component` of a non-empty text
def encodeComponent (value : String) : String :=
  String.ofList <| value.toUTF8.toList.flatMap quoteByte

def AgentAddress.toUri (a : AgentAddress) : String :=
  "agent://" ++ encodeComponent a.projectId ++ "/" ++ encodeComponent a.agentId ++ "/" ++
    toString a.generation

-- `unquote_to_bytes`, with `_PERCENT_ESCAPE` rejecting a sign that no two hex digits follow.
def unquoteToBytes : List Char → Option (List UInt8)
  | []                  => some []
  | '%' :: a :: b :: tl =>
    match hexValue a, hexValue b, unquoteToBytes tl with
    | some a, some b, some bytes => some (UInt8.ofNat (a * 16 + b) :: bytes)
    | _, _, _                    => none
  | '%' :: _            => none
  | c :: tl             => (unquoteToBytes tl).map (c.toString.toUTF8.toList ++ ·)

-- `_decode_component`
def decodeComponent (value : String) : Option String :=
  match unquoteToBytes value.toList with
  | none       => none
  | some bytes =>
    match String.fromUTF8? ⟨bytes.toArray⟩ with
    | none         => none
    | some decoded => if decoded ≠ "" ∧ encodeComponent decoded = value then some decoded else none

-- `AgentAddress.parse` and the checks of `__post_init__`
def AgentAddress.parse (value : String) : Except MailboxError AgentAddress :=
  if ¬"agent://".toList.isPrefixOf value.toList then
    .error .invalidAddress
  else
    match (value.toList.drop "agent://".length).splitOn '/' with
    | [projectId, agentId, generation] =>
      match decodeComponent (.ofList projectId), decodeComponent (.ofList agentId) with
      | some projectId, some agentId =>
        let address : AgentAddress := {
          projectId, agentId
          generation := generation.foldl (fun n c => 10 * n + (c.toNat - '0'.toNat)) 0
        }
        if generation.all (·.isDigit) ∧ 1 ≤ address.generation ∧ address.toUri = value then
          .ok address
        else
          .error .invalidAddress
      | _, _ => .error .invalidAddress
    | _ => .error .invalidAddress

theorem AgentAddress.toUri_of_parse {value : String} {a : AgentAddress} (h : parse value = .ok a) :
    a.toUri = value := by
  unfold parse at h
  split at h
  case isTrue => cases h
  split at h
  case h_2 => cases h
  split at h
  case h_2 => cases h
  dsimp only at h
  split at h
  case isFalse   => cases h
  case isTrue ha => cases h; exact ha.right.right

end Address

structure MailEnvelope where
  messageId   : String
  messageType : String
  source      : AgentAddress
  target      : AgentAddress
  payloadJson : String
deriving DecidableEq, Repr

structure MailRow where
  messageId      : String
  sourceAddress  : String
  targetAddress  : String
  messageType    : String
  payloadJson    : String
  sequenceNo     : Nat
  status         : Status
  attempt        : Nat
  nextRetryAt    : Option String
  leaseOwner     : Option String
  leaseToken     : Option String
  leaseExpiresAt : Option String
  createdAt      : String
  updatedAt      : String
deriving DecidableEq, Repr

inductive MailKey
  | message (messageId : String)
  | sequence (sequenceNo : Nat)
deriving DecidableEq, Repr

def MailRow.keys (row : MailRow) : List MailKey :=
  [.message row.messageId, .sequence row.sequenceNo]

-- The table `mail_messages`.
abbrev MailDb :=
  Table MailRow MailRow.keys

-- The settings of a `PersistentMailbox`.
structure PersistentMailbox where
  projectId        : String
  consumerId       : String
  capacity         : Nat
  leaseSeconds     : Rat
  retryBaseSeconds : Rat
  retryMaxSeconds  : Rat

inductive ResultStatus
  | inserted
  | existing
  | backpressure
  | claimed
  | empty
  | renewed
  | acked
  | nacked
  | lostLease
  | closed
deriving DecidableEq, Repr

structure MailboxResult where
  status         : ResultStatus
  row            : Option MailRow
  leaseToken     : Option String
  leaseExpiresAt : Option DateTime
  nextRetryAt    : Option DateTime

def MailboxResult.of (status : ResultStatus) (row : Option MailRow) : MailboxResult :=
  { status, row, leaseToken := none, leaseExpiresAt := none, nextRetryAt := none }

namespace MailRow

def inserted (envelope : MailEnvelope) (sequenceNo : Nat) (now : DateTime) : MailRow where
  messageId      := envelope.messageId
  sourceAddress  := envelope.source.toUri
  targetAddress  := envelope.target.toUri
  messageType    := envelope.messageType
  payloadJson    := envelope.payloadJson
  sequenceNo     := sequenceNo
  status         := .pending
  attempt        := 0
  nextRetryAt    := none
  leaseOwner     := none
  leaseToken     := none
  leaseExpiresAt := none
  createdAt      := now.utcText
  updatedAt      := now.utcText

-- The WHERE clause of `claim`, which compares timestamps as texts.
def claimable (row : MailRow) (target : String) (nowText : String) : Bool :=
  row.targetAddress = target ∧
    (row.status = .pending ∨ (row.status = .retryWait ∧ row.nextRetryAt.any (· ≤ nowText)) ∨
      (row.status = .leased ∧ row.leaseExpiresAt.any (· ≤ nowText)))

def claimed (row : MailRow) (consumerId token : String) (expiresAt now : DateTime) : MailRow :=
  {
    row with
    status := .leased, attempt := row.attempt + 1, nextRetryAt := none,
    leaseOwner := some consumerId, leaseToken := some token,
    leaseExpiresAt := some expiresAt.utcText, updatedAt := now.utcText
  }

def renewed (row : MailRow) (expiresAt now : DateTime) : MailRow :=
  { row with leaseExpiresAt := some expiresAt.utcText, updatedAt := now.utcText }

-- The lease columns are cleared with every change of status away from `leased`.
def unleased (row : MailRow) (status : Status) (nextRetryAt : Option String) (now : DateTime) :
    MailRow :=
  {
    row with
    status, nextRetryAt, leaseOwner := none, leaseToken := none, leaseExpiresAt := none,
    updatedAt := now.utcText
  }

section Keys

variable {row : MailRow} {now expiresAt : DateTime} {consumerId token : String} {status : Status}
  {retryAt : Option String}

theorem keys_claimed : (row.claimed consumerId token expiresAt now).keys = row.keys :=
  rfl

theorem keys_renewed : (row.renewed expiresAt now).keys = row.keys :=
  rfl

theorem keys_unleased : (row.unleased status retryAt now).keys = row.keys :=
  rfl

end Keys
end MailRow

namespace MailDb

def row? (db : MailDb) (messageId : String) : Option MailRow :=
  db.lookup (.message messageId)

def activeCount (db : MailDb) : Nat :=
  db.rows.countP (·.status ≠ .delivered)

-- `SELECT COALESCE(MAX(sequence_no), 0) + 1`
def nextSequence (db : MailDb) : Nat :=
  (db.rows.map (·.sequenceNo)).foldr max 0 + 1

-- UPDATE mail_messages SET ... WHERE id = ?
def update (db : MailDb) (messageId : String) (f : MailRow → MailRow)
    (h : ∀ row, (f row).keys = row.keys) : MailDb :=
  db.modify (fun row => row.messageId = messageId) f (by simp [h])

end MailDb

namespace PersistentMailbox

variable (box : PersistentMailbox)

-- `_validate_target`
def validTarget (target : AgentAddress) : Bool :=
  target.projectId = box.projectId

def enqueue (closed : Bool) (db : MailDb) (envelope : MailEnvelope) (now : DateTime) :
    Except MailboxError (MailDb × MailboxResult) :=
  if closed then
    .ok (db, .of .closed none)
  else if ¬box.validTarget envelope.source ∨ ¬box.validTarget envelope.target then
    .error .invalidAddress
  else
    match db.row? envelope.messageId with
    | some existing => .ok (db, .of .existing existing)
    | none          =>
      if box.capacity ≤ db.activeCount then
        .ok (db, .of .backpressure none)
      else
        let row := MailRow.inserted envelope db.nextSequence now
        match db.insert? row with
        | none    => .error .integrity
        | some db => .ok (db, .of .inserted row)

-- `token` is the drawn `secrets.token_urlsafe` token.
def claim (closed : Bool) (db : MailDb) (target : AgentAddress) (now : DateTime) (token : String) :
    Except MailboxError (MailDb × MailboxResult) :=
  if ¬box.validTarget target then
    .error .invalidAddress
  else if closed then
    .ok (db, .of .closed none)
  else
    match now.add (timedelta box.leaseSeconds) with
    | none           => .error .overflow
    | some expiresAt =>
      match (db.rows.filter (·.claimable target.toUri now.utcText)).argmin (·.sequenceNo) with
      | none     => .ok (db, .of .empty none)
      | some row =>
        let db := db.update row.messageId (·.claimed box.consumerId token expiresAt now)
          (fun _ => MailRow.keys_claimed)
        .ok (db, {
          status         := .claimed
          row            := db.row? row.messageId
          leaseToken     := token
          leaseExpiresAt := expiresAt
          nextRetryAt    := none
        })

-- `_lease_matches`, which compares the instants that the timestamps stand for.
def leaseMatches (row : Option MailRow) (token : String) (target : AgentAddress) (now : DateTime) :
    Except MailboxError Bool :=
  match row with
  | none     => .ok false
  | some row =>
    if row.status = .leased ∧ row.leaseOwner = some box.consumerId ∧ row.leaseToken = some token ∧
        row.targetAddress = target.toUri then
      match row.leaseExpiresAt with
      | none      => .ok false
      | some text =>
        match DateTime.parseUtc text with
        | none           => .error .invalidTimestamp
        | some expiresAt => .ok (now < expiresAt)
    else
      .ok false

def renew (db : MailDb) (messageId token : String) (target : AgentAddress) (now : DateTime) :
    Except MailboxError (MailDb × MailboxResult) :=
  if ¬box.validTarget target then
    .error .invalidAddress
  else
    match now.add (timedelta box.leaseSeconds) with
    | none           => .error .overflow
    | some expiresAt =>
      match box.leaseMatches (db.row? messageId) token target now with
      | .error e  => .error e
      | .ok false => .ok (db, .of .lostLease (db.row? messageId))
      | .ok true  =>
        let db := db.update messageId (·.renewed expiresAt now) (fun _ => MailRow.keys_renewed)
        .ok (db, {
          status         := .renewed
          row            := db.row? messageId
          leaseToken     := token
          leaseExpiresAt := expiresAt
          nextRetryAt    := none
        })

def ack (db : MailDb) (messageId token : String) (target : AgentAddress) (now : DateTime) :
    Except MailboxError (MailDb × MailboxResult) :=
  if ¬box.validTarget target then
    .error .invalidAddress
  else
    match box.leaseMatches (db.row? messageId) token target now with
    | .error e  => .error e
    | .ok false => .ok (db, .of .lostLease (db.row? messageId))
    | .ok true  =>
      let db := db.update messageId (·.unleased .delivered none now)
        (fun _ => MailRow.keys_unleased)
      .ok (db, .of .acked (db.row? messageId))

-- `min(retry_base_seconds * (2 ** max(0, attempt - 1)), retry_max_seconds)`; the power overflows a
-- float from 2 ** 1024 on.
def retryDelay (attempt : Nat) : Except MailboxError Rat :=
  if 1024 ≤ attempt - 1 then
    .error .overflow
  else
    .ok <| min (box.retryBaseSeconds * 2 ^ (attempt - 1)) box.retryMaxSeconds

def nextRetryAt (row : Option MailRow) (now : DateTime) : Except MailboxError DateTime :=
  match box.retryDelay ((row.map (·.attempt)).getD 0) with
  | .error e  => .error e
  | .ok delay =>
    match now.add (timedelta delay) with
    | none         => .error .overflow
    | some retryAt => .ok retryAt

def nack (db : MailDb) (messageId token : String) (target : AgentAddress) (now : DateTime) :
    Except MailboxError (MailDb × MailboxResult) :=
  if ¬box.validTarget target then
    .error .invalidAddress
  else
    match box.leaseMatches (db.row? messageId) token target now with
    | .error e  => .error e
    | .ok false => .ok (db, .of .lostLease (db.row? messageId))
    | .ok true  =>
      match box.nextRetryAt (db.row? messageId) now with
      | .error e    => .error e
      | .ok retryAt =>
        let db := db.update messageId (·.unleased .retryWait (some retryAt.utcText) now)
          (fun _ => MailRow.keys_unleased)
        .ok (db, { MailboxResult.of .nacked (db.row? messageId) with nextRetryAt := retryAt })

-- The update of `close`: it releases what the consumer has leased, under whatever token.
def release (db : MailDb) (now : DateTime) : MailDb :=
  db.modify (fun row => row.status = .leased ∧ row.leaseOwner = some box.consumerId)
    (·.unleased .pending none now) (by simp [MailRow.keys_unleased])

end PersistentMailbox
end Mail
