import BridleModel.Library.Transaction
import BridleModel.Mailbox.Legacy

namespace Mail

-- The row that the UPDATE of a migration writes
def MigrationRow.apply (migration : MigrationRow) (payloadJson : String) (row : LegacyRow) : LegacyRow :=
  {
    row with
    status         := migration.status
    sourceAddress  := migration.sourceAddress
    targetAddress  := migration.targetAddress
    payloadJson    := payloadJson
    nextRetryAt    := migration.nextRetryAt
    leaseExpiresAt := migration.leaseExpiresAt
    createdAt      := some migration.createdAt
    updatedAt      := some migration.updatedAt
  }

-- The names of the schema objects of version 2
namespace V2

def sequenceIndex := "uq_mail_sequence_no"
def deliveryIndex := "mail_messages_delivery_idx"
def leaseIndex    := "mail_messages_lease_idx"
def insertGuard   := "mail_messages_v2_insert_guard"
def updateGuard   := "mail_messages_v2_update_guard"

def indexes : List String :=
  [sequenceIndex, deliveryIndex, leaseIndex]

def guards : List String :=
  [insertGuard, updateGuard]

end V2

namespace MailFile

-- UPDATE mail_messages SET ... WHERE id = ?. `guard` is the condition of the update guard, if the file has
-- one: a row that it does not accept aborts the statement.
def update (guard : LegacyRow → Bool) (migration : MigrationRow) (file : MailFile) : Option MailFile :=
  match migration.payloadJson with
  | .surrogates => none
  | .utf8 text  =>
    let row' (row : LegacyRow) := if row.id = migration.rowId then migration.apply text row else row
    if V2.updateGuard ∈ file.triggers ∧
        ¬file.rows.all fun row => row.id ≠ migration.rowId ∨ guard (migration.apply text row) then
      none
    else
      some {
        file with
        rows    := file.rows.map row'
        ordered := by
          have hid (row : LegacyRow) : (row' row).id = row.id := by
            simp only [row']
            split <;> rfl
          simpa [List.pairwise_map, hid] using file.ordered
      }

-- CREATE INDEX IF NOT EXISTS
def createIndex (name : String) (file : MailFile) : Option MailFile :=
  if name ∈ file.indexes then some file else some { file with indexes := file.indexes ++ [name] }

-- CREATE UNIQUE INDEX IF NOT EXISTS uq_mail_sequence_no
def createSequenceIndex (file : MailFile) : Option MailFile :=
  if V2.sequenceIndex ∈ file.indexes ∨ (file.rows.map (·.sequenceNo)).Nodup then
    file.createIndex V2.sequenceIndex
  else
    none

-- CREATE TRIGGER IF NOT EXISTS
def createTrigger (name : String) (file : MailFile) : Option MailFile :=
  if name ∈ file.triggers then some file else some { file with triggers := file.triggers ++ [name] }

-- PRAGMA user_version = ...
def setUserVersion (version : Int) (file : MailFile) : Option MailFile :=
  some { file with userVersion := version }

end MailFile

open MailFile

-- What `_migrate_mail_database` means to be one transaction
def migrationBody (guard : LegacyRow → Bool) (migrations : List MigrationRow) :
    List (MailFile → Option MailFile) :=
  migrations.map (MailFile.update guard) ++
    [createSequenceIndex, createIndex V2.deliveryIndex, createIndex V2.leaseIndex]

def migrateMailDatabase (guard : LegacyRow → Bool) (migrations : List MigrationRow) :
    List (Statement MailFile) :=
  .begin :: (migrationBody guard migrations).map .execute ++
    Statement.script [createTrigger V2.insertGuard, createTrigger V2.updateGuard] ++
    [.execute (setUserVersion 2), .commit]

-- The file as it is found after `completed` statements and then a failure, be it an error that the
-- function rolls back on or a crash. With `completed` past the end nothing goes wrong.
def MailFile.migrated (file : MailFile) (guard : LegacyRow → Bool) (migrations : List MigrationRow)
    (completed : Nat) : MailFile :=
  ((Connection.opened file).interrupted (migrateMailDatabase guard migrations) completed).rollback.durable

end Mail
