import BridleModel.Library.Except
import BridleModel.Mailbox.Store

open Python

namespace Mail

inductive ProjectStorageError
  | schemaMigrationUnsupported
  | storeKindMismatch
  | projectIdMismatch
deriving DecidableEq, Repr

-- A Python text. One that holds a lone surrogate has no encoding, so that no statement can bind it.
inductive PythonText
  | utf8 (text : String)
  | surrogates
deriving DecidableEq, Repr

-- What the preflight takes from Python's libraries: the instant, in UTC, that an ISO text stands for, and
-- the values of the JSON texts. `dumps` refuses the values that hold a number without a JSON text.
structure Parsers (V : Type) where
  fromIsoFormat : String → Option DateTime
  loads         : String → Option V
  dumps         : V → Option PythonText

-- A row of `mail_messages` with its columns as the file has them
structure LegacyRow where
  id             : Int
  messageId      : String
  sourceAddress  : String
  targetAddress  : String
  messageType    : String
  payloadJson    : String
  sequenceNo     : Int
  status         : String
  attempt        : Int
  nextRetryAt    : Option String
  leaseOwner     : Option String
  leaseToken     : Option String
  leaseExpiresAt : Option String
  createdAt      : Option String
  updatedAt      : Option String
deriving DecidableEq, Repr

-- `mail.db`. The rows stand in the order of their primary key.
structure MailFile where
  storeKind   : Option String
  projectId   : Option String
  userVersion : Int
  rows        : List LegacyRow
  ordered     : rows.Pairwise (·.id < ·.id)
  indexes     : List String
  triggers    : List String
deriving DecidableEq

-- `_MailMigrationRow`
structure MigrationRow where
  rowId          : Int
  status         : String
  sourceAddress  : String
  targetAddress  : String
  payloadJson    : PythonText
  nextRetryAt    : Option String
  leaseExpiresAt : Option String
  createdAt      : String
  updatedAt      : String
deriving DecidableEq, Repr

section Normalize

variable {V : Type} (P : Parsers V) (projectId : String)

def canonicalLegacyAddress (text : String) : Except ProjectStorageError String :=
  match AgentAddress.parse text with
  | .ok address => .ok address.toUri
  | .error _    =>
    if "agent://".toList.isPrefixOf text.toList then
      let agentId := String.ofList (text.toList.drop "agent://".length)
      if agentId ≠ "" ∧ '/' ∉ agentId.toList ∧ projectId ≠ "" then
        .ok (AgentAddress.mk projectId agentId 1).toUri
      else
        .error .schemaMigrationUnsupported
    else
      .error .schemaMigrationUnsupported

def canonicalJson (text : String) : Except ProjectStorageError PythonText :=
  match (P.loads text).bind P.dumps with
  | none      => .error .schemaMigrationUnsupported
  | some text => .ok text

-- `_canonical_timestamp` of a text
def canonicalTimestamp (text : String) : Except ProjectStorageError String :=
  match P.fromIsoFormat text with
  | none      => .error .schemaMigrationUnsupported
  | some time => .ok time.utcText

def canonicalOptional : Option String → Except ProjectStorageError (Option String)
  | none      => .ok none
  | some text => some <$> canonicalTimestamp P text

def canonicalRequired : Option String → Except ProjectStorageError String
  | none      => .error .schemaMigrationUnsupported
  | some text => canonicalTimestamp P text

def validateLegacyState (row : LegacyRow) : Except ProjectStorageError String :=
  let retry := row.nextRetryAt
  let lease := [row.leaseOwner, row.leaseToken, row.leaseExpiresAt]
  let (valid, normalized) :=
    if row.status = "pending" then
      (lease.all Option.isNone, if retry.isSome then "retry_wait" else "pending")
    else if row.status = "delivered" then
      (retry.isNone && lease.all Option.isNone, "delivered")
    else if row.status = "retry_wait" then
      (retry.isSome && lease.all Option.isNone, "retry_wait")
    else if row.status = "leased" then
      (retry.isNone && lease.all Option.isSome, "leased")
    else
      (false, row.status)
  if valid then .ok normalized else .error .schemaMigrationUnsupported

-- A round of the loop of `_preflight_mail_database`: `sequences` holds what the rows before have taken.
def preflightRow (sequences : List Int) (row : LegacyRow) : Except ProjectStorageError MigrationRow := do
  Except.raiseIf
    (row.id < 1 ∨ row.sequenceNo < 1 ∨ row.attempt < 0 ∨ row.sequenceNo ∈ sequences)
    .schemaMigrationUnsupported
  Except.raiseIf (row.messageId = "" ∨ row.messageType = "") .schemaMigrationUnsupported
  let status ← validateLegacyState row
  let sourceAddress ← canonicalLegacyAddress projectId row.sourceAddress
  let targetAddress ← canonicalLegacyAddress projectId row.targetAddress
  let payloadJson ← canonicalJson P row.payloadJson
  let nextRetryAt ← canonicalOptional P row.nextRetryAt
  let leaseExpiresAt ← canonicalOptional P row.leaseExpiresAt
  let createdAt ← canonicalRequired P row.createdAt
  let updatedAt ← canonicalRequired P row.updatedAt
  return {
    rowId := row.id
    status, sourceAddress, targetAddress, payloadJson, nextRetryAt, leaseExpiresAt, createdAt, updatedAt
  }

def preflightRows : List Int → List LegacyRow → Except ProjectStorageError (List MigrationRow)
  | _, []                  => .ok []
  | sequences, row :: rows => do
    let migration ← preflightRow P projectId sequences row
    let migrations ← preflightRows (row.sequenceNo :: sequences) rows
    return migration :: migrations

-- `none` stands for a file that is at version 2 already.
def preflightMailDatabase (file : MailFile) :
    Except ProjectStorageError (Option (List MigrationRow)) := do
  Except.raiseIf (file.storeKind ≠ some "mail") .storeKindMismatch
  Except.raiseIf (file.projectId ≠ some projectId) .projectIdMismatch
  if file.userVersion = 2 then
    return none
  Except.raiseIf (file.userVersion ≠ 0) .schemaMigrationUnsupported
  some <$> preflightRows P projectId [] file.rows

end Normalize
end Mail
