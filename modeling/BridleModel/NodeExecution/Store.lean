import Mathlib.Data.List.Sort
import BridleModel.Library.Except
import BridleModel.Plan.Database

namespace NodeExecution

inductive State
  | waiting
  | ended
deriving DecidableEq, Repr

inductive Outcome
  | completed
  | failed
  | blocked
  | cancelled
deriving DecidableEq, Repr

namespace Outcome

def all : List Outcome :=
  [completed, failed, blocked, cancelled]

def value : Outcome → String
  | completed => "completed"
  | failed    => "failed"
  | blocked   => "blocked"
  | cancelled => "cancelled"

def ofValue (value : String) : Option Outcome :=
  all.find? (·.value = value)

theorem value_of_ofValue {value : String} {o : Outcome} (h : ofValue value = some o) :
    o.value = value := by
  simpa using List.find?_some h

end Outcome

inductive Error
  | api (error : Plan.ApiError)
  | integrity -- sqlite3.IntegrityError
  | assertion -- AssertionError
deriving Repr

namespace Error

def validation (resource message : String) : Error :=
  .api { code := "validation_error", message, resource, details := [] }

def notFound (resource message : String) : Error :=
  .api { code := "not_found", message, resource, details := [] }

def conflict (resource message code : String) : Error :=
  .api { code, message, resource, details := [] }

end Error

-- What `node_executions` and `wait_signals` both record.
structure Progress where
  state     : State
  phase     : String
  revision  : Nat
  outcome   : Option Outcome
  resultRef : Option String
deriving DecidableEq, Repr

def Progress.queued : Progress where
  state     := .waiting
  phase     := "queued"
  revision  := 1
  outcome   := none
  resultRef := none

def Progress.ended (p : Progress) (phase : String) (outcome : Outcome) (resultRef : Option String) :
    Progress :=
  { p with state := .ended, phase, outcome := some outcome, resultRef }

structure ExecutionRow extends Progress where
  executionId  : String
  waitId       : String
  nodeId       : String
  ownerAddress : String
deriving DecidableEq, Repr

inductive ExecutionKey
  | id (executionId : String)
  | wait (waitId : String)
  | active (nodeId : String) -- ux_node_executions_active_node
deriving DecidableEq, Repr

def ExecutionRow.keys (row : ExecutionRow) : List ExecutionKey :=
  match row.state with
  | .waiting => [.id row.executionId, .wait row.waitId, .active row.nodeId]
  | .ended   => [.id row.executionId, .wait row.waitId]

structure WaitRow extends Progress where
  waitId      : String
  executionId : String
  nodeId      : String
deriving DecidableEq, Repr

inductive WaitKey
  | id (waitId : String)
  | execution (executionId : String)
deriving DecidableEq, Repr

def WaitRow.keys (row : WaitRow) : List WaitKey :=
  [.id row.waitId, .execution row.executionId]

inductive OutboxState
  | pending
  | sent
deriving DecidableEq, Repr

-- The columns of `completion_outbox` that are written once. `payload` is the value that the text in
-- the column stands for.
structure Notification where
  waitId       : String
  executionId  : String
  ownerAddress : String
  messageId    : String
  payload      : Json.Dict
  createdAt    : String
deriving Repr

structure CompletionRow extends Notification where
  state   : OutboxState
  attempt : Nat
deriving Repr

inductive CompletionKey
  | id (waitId : String)
  | message (messageId : String)
deriving DecidableEq, Repr

def CompletionRow.keys (row : CompletionRow) : List CompletionKey :=
  [.id row.waitId, .message row.messageId]

structure Db where
  executions  : Table ExecutionRow ExecutionRow.keys
  waits       : Table WaitRow WaitRow.keys
  completions : Table CompletionRow CompletionRow.keys

-- The record of `_node_execution_from_row`.
structure Execution extends Progress where
  waitId       : String
  executionId  : String
  nodeId       : String
  ownerAddress : String
deriving DecidableEq, Repr

def messageId (waitId : String) : String :=
  "node-workflow-result:" ++ waitId

def payload (current : Execution) (outcome : Outcome) (resultRef : Option String) : Json.Dict := [
  ("wait_id", .str current.waitId),
  ("execution_id", .str current.executionId),
  ("node_id", .str current.nodeId),
  ("state", .str "ended"),
  ("outcome", .str outcome.value),
  ("result_ref", .ofOption resultRef),
  ("revision", .num current.revision)
]

namespace ExecutionRow

variable {row : ExecutionRow} {phase : String} {outcome : Outcome} {resultRef : Option String}

def ended (row : ExecutionRow) (phase : String) (outcome : Outcome) (resultRef : Option String) :
    ExecutionRow :=
  { row with toProgress := row.toProgress.ended phase outcome resultRef }

-- The partial index lets go of the node.
theorem keys_ended : (row.ended phase outcome resultRef).keys ⊆ row.keys := by
  intro k hk
  have hk : k ∈ [.id row.executionId, .wait row.waitId] := hk
  unfold keys
  cases row.state with
  | waiting => exact List.mem_append_left [.active row.nodeId] hk
  | ended   => exact hk

end ExecutionRow

namespace WaitRow

variable {row : WaitRow} {phase : String} {outcome : Outcome} {resultRef : Option String}

def ended (row : WaitRow) (phase : String) (outcome : Outcome) (resultRef : Option String) : WaitRow :=
  { row with toProgress := row.toProgress.ended phase outcome resultRef }

theorem keys_ended : (row.ended phase outcome resultRef).keys ⊆ row.keys :=
  List.Subset.refl _

end WaitRow

def CompletionRow.created (current : Execution) (outcome : Outcome) (resultRef : Option String)
    (now : String) : CompletionRow where
  waitId       := current.waitId
  executionId  := current.executionId
  ownerAddress := current.ownerAddress
  messageId    := messageId current.waitId
  payload      := payload current outcome resultRef
  createdAt    := now
  state        := .pending
  attempt      := 0

def CompletionRow.sent (row : CompletionRow) : CompletionRow :=
  { row with state := .sent, attempt := row.attempt + 1 }

def CompletionRow.attempted (row : CompletionRow) : CompletionRow :=
  { row with attempt := row.attempt + 1 }

-- ORDER BY created_at, wait_id
def Notification.le (a b : Notification) : Prop :=
  a.createdAt < b.createdAt ∨ (a.createdAt = b.createdAt ∧ a.waitId ≤ b.waitId)

instance (a b : Notification) : Decidable (a.le b) :=
  inferInstanceAs (Decidable (_ ∨ _))

namespace Db

def init : Db where
  executions  := .empty
  waits       := .empty
  completions := .empty

section Select

-- `wait_signals w JOIN node_executions e ON e.execution_id = w.execution_id`
def joined (db : Db) : List (WaitRow × ExecutionRow) :=
  db.waits.rows.filterMap fun w => (db.executions.lookup (.id w.executionId)).map (w, ·)

def record (row : WaitRow × ExecutionRow) : Execution where
  toProgress   := row.fst.toProgress
  waitId       := row.fst.waitId
  executionId  := row.snd.executionId
  nodeId       := row.snd.nodeId
  ownerAddress := row.snd.ownerAddress

def selectActive (db : Db) (nodeId : String) : Option Execution :=
  (db.joined.find? fun row => row.snd.nodeId = nodeId ∧ row.snd.state = .waiting).map record

def selectWait (db : Db) (waitId : String) : Option Execution :=
  (db.joined.find? fun row => row.fst.waitId = waitId).map record

end Select

-- `create_node_execution`: the identifiers come from the drawn `uuid4().hex`.
def createNodeExecution (db : Db) (nodeId ownerAddress executionHex waitHex : String) :
    Except Error (Db × Execution) :=
  match db.selectActive nodeId with
  | some record => .ok (db, record)
  | none        =>
    let executionId := "execution-" ++ executionHex
    let waitId := "wait-" ++ waitHex
    let execution : ExecutionRow := {
      toProgress := .queued
      executionId, waitId, nodeId, ownerAddress
    }
    let wait : WaitRow := { toProgress := .queued, waitId, executionId, nodeId }
    match db.executions.insert? execution, db.waits.insert? wait with
    | some executions, some waits =>
      let db := { db with executions, waits }
      match db.selectWait waitId with
      | none        => .error .assertion
      | some record => .ok (db, record)
    | _, _ => .error .integrity

-- The two UPDATE statements of `complete_execution`
def finish (db : Db) (current : Execution) (phase : String) (outcome : Outcome)
    (resultRef : Option String) : Db :=
  {
    db with
    executions := db.executions.modify
      (fun row => row.executionId = current.executionId ∧ row.state = .waiting)
      (·.ended phase outcome resultRef) (fun _ _ => ExecutionRow.keys_ended)
    waits := db.waits.modify (fun row => row.waitId = current.waitId ∧ row.state = .waiting)
      (·.ended phase outcome resultRef) (fun _ _ => WaitRow.keys_ended)
  }

-- INSERT OR IGNORE INTO completion_outbox
def notify (db : Db) (row : CompletionRow) : Db :=
  { db with completions := (db.completions.insert? row).getD db.completions }

def completeExecution (db : Db) (waitId outcome : String) (resultRef phase : Option String)
    (now : String) : Except Error (Db × Execution) :=
  match Outcome.ofValue outcome with
  | none => .error (.validation "node_execution" "Invalid terminal execution outcome")
  | some outcome =>
    match db.selectWait waitId with
    | none         => .error (.notFound "wait_signal" "wait signal not found")
    | some current =>
      if current.state = .ended then
        if current.outcome ≠ some outcome ∨ current.resultRef ≠ resultRef then
          .error (.conflict "node_execution" "execution already ended with another outcome"
            "execution_terminal_conflict")
        else
          .ok (db, current)
      else
        -- `phase or current["phase"]`
        let phase := (phase.filter (· ≠ "")).getD current.phase
        let db := (db.finish current phase outcome resultRef).notify
          (.created current outcome resultRef now)
        match db.selectWait waitId with
        | none       => .error .assertion
        | some ended => .ok (db, ended)

def listPendingCompletionOutbox (db : Db) : List Notification :=
  ((db.completions.rows.filter (·.state = .pending)).map (·.toNotification)).insertionSort (·.le ·)

-- UPDATE completion_outbox ... WHERE wait_id = ? AND state = 'pending'
def mark (db : Db) (waitId : String) (f : CompletionRow → CompletionRow)
    (h : ∀ row, (f row).keys = row.keys) : Db :=
  {
    db with
    completions := db.completions.modify (fun row => row.waitId = waitId ∧ row.state = .pending) f
      (by simp [h])
  }

def markCompletionOutboxSent (db : Db) (waitId : String) : Db :=
  db.mark waitId (·.sent) (fun _ => rfl)

def markCompletionOutboxAttempt (db : Db) (waitId : String) : Db :=
  db.mark waitId (·.attempted) (fun _ => rfl)

end Db
end NodeExecution
