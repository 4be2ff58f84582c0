import Mathlib.Data.Rat.Defs
import BridleModel.Json
import BridleModel.Library.Table
import BridleModel.Plan.Workflow

namespace Plan

-- A float timestamp stands for the rational number it denotes.
abbrev Timestamp :=
  Rat

structure ApiError where
  code     : String
  message  : String
  resource : String
  details  : Json.Dict
deriving Repr

inductive Error
  | api (error : ApiError)
  | integrity -- sqlite3.IntegrityError
  | overflow  -- OverflowError
deriving Repr

namespace Error

def notFound (resource message : String) (details : Json.Dict) : Error :=
  .api { code := "not_found", message, resource, details }

def validation (resource message : String) (details : Json.Dict) : Error :=
  .api { code := "validation_error", message, resource, details }

def conflict (resource message code : String) (details : Json.Dict) : Error :=
  .api { code, message, resource, details }

def code? : Error → Option String
  | api error => error.code
  | integrity => none
  | overflow  => none

end Error

structure WorkflowRow where
  nodeId              : String
  state               : ModificationState
  revision            : Nat
  testContractVersion : Option String
deriving DecidableEq, Repr

structure EventRow where
  eventId   : String
  nodeId    : String
  event     : ModificationEvent
  fromState : Option ModificationState
  toState   : ModificationState
  revision  : Nat
  payload   : Json.Dict
deriving Repr

inductive ContractState
  | frozen
  | invalidated
deriving DecidableEq, Repr

structure ContractRow where
  nodeId             : String
  contractVersion    : String
  snapshot           : String
  state              : ContractState
  invalidationReason : Option String
deriving DecidableEq, Repr

inductive ContractKey
  | version (nodeId contractVersion : String) -- PRIMARY KEY
  | active (nodeId : String)                  -- ux_test_contracts_active_node
deriving DecidableEq, Repr

def ContractRow.keys (row : ContractRow) : List ContractKey :=
  match row.state with
  | .frozen      => [.version row.nodeId row.contractVersion, .active row.nodeId]
  | .invalidated => [.version row.nodeId row.contractVersion]

inductive RunState
  | queued
  | running
  | completed
  | failed
deriving DecidableEq, Repr

structure RunRow where
  runId           : String
  nodeId          : String
  phase           : Phase
  sourceRevision  : Nat
  contractVersion : String
  candidateId     : Option String
  state           : RunState
  attempt         : Nat
  nextRetryAt     : Option Timestamp
  maxAttempts     : Int
  terminalReason  : Option String
  leaseToken      : Option String
  leaseExpiresAt  : Option Timestamp
  outcome         : Option Json.Dict
  errorCode       : Option String
deriving Repr

inductive RunKey
  | id (runId : String)
  | source (nodeId : String) (phase : Phase) (sourceRevision : Nat) (contractVersion : String)
deriving DecidableEq, Repr

def RunRow.source (row : RunRow) : RunKey :=
  .source row.nodeId row.phase row.sourceRevision row.contractVersion

def RunRow.keys (row : RunRow) : List RunKey :=
  [.id row.runId, row.source]

structure ChangeRow where
  entityType : String
  entityId   : String
  operation  : String
  payload    : Json.Dict
deriving Repr

-- The tables of plan.db that the modification gate lives in.
structure Db where
  workflows : Table WorkflowRow fun row => [row.nodeId]
  events    : Table EventRow fun row => [row.eventId]
  contracts : Table ContractRow ContractRow.keys
  runs      : Table RunRow RunRow.keys
  changes   : List ChangeRow

namespace Db

variable {db : Db} {nodeId : String}

def empty : Db where
  workflows := .empty
  events    := .empty
  contracts := .empty
  runs      := .empty
  changes   := []

def recordChange (db : Db) (entityType entityId operation : String) (payload : Json.Dict) : Db :=
  { db with changes := db.changes ++ [{ entityType, entityId, operation, payload }] }

@[simp]
theorem recordChange_workflows : (recordChange db t i o p).workflows = db.workflows :=
  rfl

@[simp]
theorem recordChange_events : (recordChange db t i o p).events = db.events :=
  rfl

@[simp]
theorem recordChange_contracts : (recordChange db t i o p).contracts = db.contracts :=
  rfl

@[simp]
theorem recordChange_runs : (recordChange db t i o p).runs = db.runs :=
  rfl

-- `get_modification_workflow`
def workflow? (db : Db) (nodeId : String) : Option WorkflowRow :=
  db.workflows.lookup nodeId

-- `list_modification_events`
def eventsOf (db : Db) (nodeId : String) : List EventRow :=
  db.events.rows.filter (·.nodeId = nodeId)

-- `get_active_test_contract`
def activeContract? (db : Db) (nodeId : String) : Option ContractRow :=
  db.contracts.lookup (.active nodeId)

-- `get_test_contract`
def contract? (db : Db) (nodeId contractVersion : String) : Option ContractRow :=
  db.contracts.lookup (.version nodeId contractVersion)

-- `get_verification_run`
def run? (db : Db) (runId : String) : Option RunRow :=
  db.runs.lookup (.id runId)

-- `latest_verification_run`
def latestRun? (db : Db) (nodeId : String) : Option RunRow :=
  (db.runs.rows.filter (·.nodeId = nodeId)).getLast?

def stateOf (db : Db) (nodeId : String) : Option ModificationState :=
  (db.workflow? nodeId).map (·.state)

def revisionOf (db : Db) (nodeId : String) : Nat :=
  ((db.workflow? nodeId).map (·.revision)).getD 0

def contractOf (db : Db) (nodeId : String) : Option String :=
  (db.workflow? nodeId).bind (·.testContractVersion)

theorem activeContract?_eq_some_iff {row : ContractRow} :
    db.activeContract? nodeId = some row ↔
      row ∈ db.contracts ∧ row.nodeId = nodeId ∧ row.state = .frozen := by
  rw [activeContract?, Table.lookup_eq_some_iff, ContractRow.keys]
  cases row.state <;> simp [eq_comm]

theorem contract?_eq_some_iff {row : ContractRow} {version : String} :
    db.contract? nodeId version = some row ↔
      row ∈ db.contracts ∧ row.nodeId = nodeId ∧ row.contractVersion = version := by
  rw [contract?, Table.lookup_eq_some_iff, ContractRow.keys]
  cases row.state <;> simp [eq_comm]

theorem run?_eq_some_iff {row : RunRow} {runId : String} :
    db.run? runId = some row ↔ row ∈ db.runs ∧ row.runId = runId := by
  rw [run?, Table.lookup_eq_some_iff]
  simp [RunRow.keys, RunRow.source, eq_comm]

theorem latestRun?_mem {row : RunRow} (h : db.latestRun? nodeId = some row) :
    row ∈ db.runs ∧ row.nodeId = nodeId := by
  have hm := List.mem_of_getLast? h
  simpa [Table.mem_def] using hm

end Db
end Plan
