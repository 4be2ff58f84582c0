import Mathlib.Algebra.Order.Ring.Unbundled.Rat
import BridleModel.Plan.Transition

namespace Plan

namespace RunRow

-- The row that INSERT leaves, with the defaults of the schema.
def enqueued (runId nodeId : String) (phase : Phase) (sourceRevision : Nat)
    (contractVersion : String) (candidateId : Option String) (maxAttempts : Int) : RunRow where
  runId           := runId
  nodeId          := nodeId
  phase           := phase
  sourceRevision  := sourceRevision
  contractVersion := contractVersion
  candidateId     := candidateId
  state           := .queued
  attempt         := 0
  nextRetryAt     := none
  maxAttempts     := maxAttempts
  terminalReason  := none
  leaseToken      := none
  leaseExpiresAt  := none
  outcome         := none
  errorCode       := none

-- A claim finds the run terminal, leased to somebody or waiting for its retry time.
def withheld (row : RunRow) (now : Timestamp) : Bool :=
  row.state = .completed ∨ row.state = .failed ∨
  (row.state = .running ∧ row.leaseExpiresAt.any (now < ·)) ∨
  (row.state = .queued ∧ row.nextRetryAt.any (now < ·))

def owned (row : RunRow) (leaseToken : String) : Bool :=
  row.state = .running ∧ row.leaseToken = some leaseToken

def claimed (row : RunRow) (now : Timestamp) (leaseSeconds : Int) (leaseToken : String) : RunRow :=
  {
    row with
    state := .running, attempt := row.attempt + 1, leaseToken := some leaseToken,
    leaseExpiresAt := some (now + leaseSeconds), errorCode := none, nextRetryAt := none,
    terminalReason := none
  }

def renewed (row : RunRow) (now : Timestamp) (leaseSeconds : Int) : RunRow :=
  { row with leaseExpiresAt := some (now + leaseSeconds) }

def completed (row : RunRow) (outcome : Json.Dict) (errorCode : Option String) : RunRow :=
  {
    row with
    state := .completed, outcome := some outcome, errorCode, leaseToken := none,
    leaseExpiresAt := none
  }

def deferred (row : RunRow) (retryLimit : Int) (exhausted : Bool) (retryAt : Option Timestamp)
    (errorCode : String) : RunRow :=
  {
    row with
    state := if exhausted then .failed else .queued, leaseToken := none, leaseExpiresAt := none,
    nextRetryAt := retryAt, maxAttempts := retryLimit,
    terminalReason := if exhausted then some "verification_retry_exhausted" else none,
    errorCode := some errorCode
  }

-- The indexed columns of a run never change.
section Keys

variable {row : RunRow} {now : Timestamp} {seconds limit : Int} {token : String}
  {outcome : Json.Dict} {code : Option String} {exhausted : Bool} {retryAt : Option Timestamp}
  {reason : String}

theorem keys_claimed : (row.claimed now seconds token).keys = row.keys :=
  rfl

theorem keys_renewed : (row.renewed now seconds).keys = row.keys :=
  rfl

theorem keys_completed : (row.completed outcome code).keys = row.keys :=
  rfl

theorem keys_deferred : (row.deferred limit exhausted retryAt reason).keys = row.keys :=
  rfl

end Keys
end RunRow

namespace Db

def sourceDetails (nodeId phase : String) (sourceRevision : Nat) : Json.Dict :=
  [("node_id", .str nodeId), ("phase", .str phase), ("source_revision", .num sourceRevision)]

def runNotFound (runId : String) : Error :=
  .notFound "verification_run" "Verification run not found" [("run_id", .str runId)]

def leaseLost (runId : String) : Error :=
  .conflict "verification_run" "Verification lease is no longer owned" "verification_lease_lost"
    [("run_id", .str runId)]

def retryLimitInvalid (maxAttempts : Int) : Error :=
  .validation "verification_run" "Verification retry limit is invalid"
    [("max_attempts", .num maxAttempts)]

def enqueueVerificationRun (db : Db) (runId nodeId phase : String) (sourceRevision : Nat)
    (contractVersion : String) (candidateId : Option String) (maxAttempts : Int) :
    Except Error (Db × RunRow) :=
  match Phase.ofValue phase with
  | none => .error <| .validation "verification_run" "Verification phase is invalid"
      [("phase", .str phase)]
  | some ph =>
    if maxAttempts < 1 then
      .error <| retryLimitInvalid maxAttempts
    else
      match db.runs.lookup (.source nodeId ph sourceRevision contractVersion) with
      | some existing =>
        if existing.runId ≠ runId ∨ existing.contractVersion ≠ contractVersion ∨
            existing.candidateId ≠ candidateId ∨ existing.maxAttempts ≠ maxAttempts then
          .error <| .conflict "verification_run"
            "Verification source event is already bound to another run" "verification_run_conflict"
            (sourceDetails nodeId phase sourceRevision)
        else
          .ok (db, existing)
      | none =>
        let row := RunRow.enqueued runId nodeId ph sourceRevision contractVersion candidateId
          maxAttempts
        match db.runs.insert? row with
        | none      => .error .integrity
        | some runs => .ok ({ db with runs }, row)

-- UPDATE verification_runs SET ... WHERE run_id = ? AND guard, for columns outside the indices.
def updateRun (db : Db) (runId : String) (guard : RunRow → Bool) (f : RunRow → RunRow)
    (h : ∀ row, (f row).keys = row.keys) : Db :=
  { db with runs := db.runs.modify (fun row => row.runId = runId ∧ guard row) f (by simp [h]) }

-- The `rowcount` of such an update.
def runCount (db : Db) (runId : String) (guard : RunRow → Bool) : Nat :=
  db.runs.rowcount fun row => row.runId = runId ∧ guard row

-- The result `none` models the early `return None`. `leaseToken` is the drawn `uuid.uuid4()` token.
def claimVerificationRun (db : Db) (runId : String) (now : Timestamp) (leaseSeconds : Int)
    (leaseToken : String) : Except Error (Db × Option RunRow) :=
  match db.run? runId with
  | none     => .error <| runNotFound runId
  | some row =>
    if row.withheld now then
      .ok (db, none)
    else
      let db := db.updateRun runId (fun _ => true) (·.claimed now leaseSeconds leaseToken)
        (fun _ => RunRow.keys_claimed)
      .ok (db, db.run? runId)

def renewVerificationLease (db : Db) (runId leaseToken : String) (now : Timestamp)
    (leaseSeconds : Int) : Except Error (Db × Option RunRow) :=
  if leaseSeconds < 1 then
    .error <| .validation "verification_run" "Verification lease duration is invalid"
      [("lease_seconds", .num leaseSeconds)]
  else
    let guard (row : RunRow) : Bool := row.owned leaseToken ∧ row.leaseExpiresAt.any (now < ·)
    if db.runCount runId guard ≠ 1 then
      match db.run? runId with
      | none   => .error <| runNotFound runId
      | some _ => .error <| leaseLost runId
    else
      let db := db.updateRun runId guard (·.renewed now leaseSeconds) (fun _ => RunRow.keys_renewed)
      .ok (db, db.run? runId)

def completeVerificationRun (db : Db) (runId leaseToken : String) (outcome : Json.Dict)
    (errorCode : Option String) : Except Error (Db × Option RunRow) :=
  if db.runCount runId (·.owned leaseToken) ≠ 1 then
    match db.run? runId with
    | none         => .error <| leaseLost runId
    | some current =>
      if current.state = .completed then
        .ok (db, some current)
      else
        .error <| leaseLost runId
  else
    let db := db.updateRun runId (·.owned leaseToken) (·.completed outcome errorCode)
      (fun _ => RunRow.keys_completed)
    .ok (db, db.run? runId)

def retryExhaustedId (runId : String) : String :=
  "verification:" ++ runId ++ ":retry-exhausted"

def retryExhaustedEvent (run : RunRow) (workflow : WorkflowRow) (errorCode : String) : EventRow :=
  let payload : Json.Dict := [
    ("verification_run_id", .str run.runId), ("phase", .str run.phase.value),
    ("status", .str "blocked"), ("error_code", .str errorCode),
    ("terminal_reason", .str "verification_retry_exhausted")
  ]
  {
    eventId   := retryExhaustedId run.runId
    nodeId    := run.nodeId
    event     := .verificationRetryExhausted
    fromState := some run.phase.gate
    toState   := .verificationBlocked
    revision  := workflow.revision + 1
    payload   := workflow.testContractVersion.elim payload fun v =>
      payload.set "test_contract_version" (.str v)
  }

-- `_block_verification_workflow_after_retry_exhaustion`
def blockVerificationWorkflow (db : Db) (run : RunRow) (errorCode : String) : Except Error Db :=
  match db.workflow? run.nodeId with
  | none => .error <| stateConflict none
  | some workflow =>
    if workflow.state ≠ run.phase.gate then
      .error <| stateConflict (some workflow.state)
    else do
      let workflows ← db.updateWorkflow run.nodeId workflow.revision
        (fun row => { row with state := .verificationBlocked, revision := workflow.revision + 1 })
        (fun _ => rfl)
      { db with workflows }.insertEvent (retryExhaustedEvent run workflow errorCode)
        workflow.testContractVersion
where
  stateConflict (actual : Option ModificationState) : Error :=
    .conflict "modification_workflow" "Verification workflow is no longer active"
      "verification_workflow_state_conflict"
      [("node_id", .str run.nodeId), ("phase", .str run.phase.value),
        ("expected_state", .str run.phase.gate.value), ("actual_state", stringOrNull actual)]

-- `None if exhausted else now + min(float(2 ** max(attempt - 1, 0)), 60.0)`; the power overflows a
-- float from 2 ** 1024 on.
def nextRetryAt (now : Timestamp) (attempt : Nat) (exhausted : Bool) :
    Except Error (Option Timestamp) :=
  if exhausted then
    .ok none
  else if 1024 ≤ attempt - 1 then
    .error .overflow
  else
    .ok <| some (now + min (2 ^ (attempt - 1)) 60)

-- The two statements of a deferral under way: the update of the run, then the block of its workflow.
def deferOwnedRun (db : Db) (current : RunRow) (leaseToken errorCode : String) (retryLimit : Int)
    (exhausted : Bool) (retryAt : Option Timestamp) : Except Error Db :=
  if db.runCount current.runId (·.owned leaseToken) ≠ 1 then
    .error <| leaseLost current.runId
  else
    let db := db.updateRun current.runId (·.owned leaseToken)
      (·.deferred retryLimit exhausted retryAt errorCode) (fun _ => RunRow.keys_deferred)
    if exhausted then
      db.blockVerificationWorkflow current errorCode
    else
      .ok db

def deferVerificationRun (db : Db) (runId leaseToken errorCode : String) (now : Timestamp)
    (maxAttempts : Option Int) : Except Error (Db × Option RunRow) :=
  match db.run? runId with
  | none         => .error <| runNotFound runId
  | some current =>
    let retryLimit := maxAttempts.getD current.maxAttempts
    if retryLimit < 1 then
      .error <| retryLimitInvalid retryLimit
    else do
      let exhausted : Bool := retryLimit ≤ current.attempt
      let retryAt ← nextRetryAt now current.attempt exhausted
      let db ← db.deferOwnedRun current leaseToken errorCode retryLimit exhausted retryAt
      return (db, db.run? runId)

section Spec

variable {db db' : Db} {runId nodeId phase version token errorCode : String} {revision : Nat}
  {candidateId : Option String} {limit leaseSeconds : Int} {now : Timestamp} {row : RunRow}

theorem run?_updateRun {guard : RunRow → Bool} {f : RunRow → RunRow} {hf} (r : String) :
    (db.updateRun runId guard f hf).run? r =
      if r = runId then (db.run? r).map fun row => if guard row then f row else row
      else db.run? r := by
  simp only [updateRun, run?]
  rw [Table.lookup_modify_of_keys_eq (by simp [hf])]
  cases hl : db.runs.lookup (.id r)
  case none => simp
  case some row =>
    have hk : row.runId = r := run?_eq_some_iff.mp hl |>.right
    by_cases hr : r = runId <;> simp [hk, hr]

theorem runCount_eq_one_iff {guard : RunRow → Bool} :
    db.runCount runId guard = 1 ↔ ∃ row, db.run? runId = some row ∧ guard row := by
  rw [runCount, Table.rowcount_eq_one_iff (k := .id runId) (by simp +contextual [RunRow.keys])]
  constructor
  · rintro ⟨row, hl, hp⟩
    exact ⟨row, hl, by simp_all⟩
  · rintro ⟨row, hl, hg⟩
    exact ⟨row, hl, by simp [run?_eq_some_iff.mp hl, hg]⟩

theorem enqueueVerificationRun_cases
    (h : db.enqueueVerificationRun runId nodeId phase revision version candidateId limit =
      .ok (db', row)) :
    ∃ ph, phase = ph.value ∧ row.runId = runId ∧ row.source = .source nodeId ph revision version ∧
      ((db' = db ∧ db.run? runId = some row) ∨
       (db.runs.lookup (.source nodeId ph revision version) = none ∧
        row = .enqueued runId nodeId ph revision version candidateId limit ∧
        ∃ runs, db.runs.insert? row = some runs ∧ db' = { db with runs })) := by
  unfold enqueueVerificationRun at h
  split at h
  case h_1 => cases h
  case h_2 ph hp =>
  refine ⟨ph, Phase.ofValue_eq_some_iff.mp hp, ?_⟩
  split at h
  case isTrue => cases h
  case isFalse =>
  split at h
  case h_1 existing he =>
    split at h <;> cases h
    case isFalse hn =>
      push Not at hn
      have hs : row.source = .source nodeId ph revision version := by
        have := Table.lookup_key he
        simpa [RunRow.keys, RunRow.source, eq_comm] using this
      exact ⟨hn.1, hs, .inl ⟨rfl, run?_eq_some_iff.mpr ⟨Table.lookup_mem he, hn.1⟩⟩⟩
  case h_2 he =>
    simp only at h
    split at h <;> cases h
    case h_2 runs hi => exact ⟨rfl, rfl, .inr ⟨he, rfl, runs, hi, rfl⟩⟩

theorem enqueueVerificationRun_positive
    (h : db.enqueueVerificationRun runId nodeId phase revision version candidateId limit =
      .ok (db', row)) : 1 ≤ limit := by
  unfold enqueueVerificationRun at h
  split at h
  case h_1 => cases h
  case h_2 =>
    split at h
    case isTrue     => cases h
    case isFalse hl => exact not_lt.mp hl

theorem enqueueVerificationRun_run?
    (h : db.enqueueVerificationRun runId nodeId phase revision version candidateId limit =
      .ok (db', row)) : db'.run? row.runId = some row := by
  have ⟨_, _, hid, _, hcases⟩ := enqueueVerificationRun_cases h
  rcases hcases with ⟨rfl, hr⟩ | ⟨_, _, runs, hi, rfl⟩
  · exact hid ▸ hr
  · simp [run?, Table.lookup_insert? hi, RunRow.keys]

theorem claimVerificationRun_cases {res : Option RunRow}
    (h : db.claimVerificationRun runId now leaseSeconds token = .ok (db', res)) :
    ∃ row, db.run? runId = some row ∧
      ((row.withheld now = true ∧ db' = db ∧ res = none) ∨
       (row.withheld now = false ∧ res = some (row.claimed now leaseSeconds token) ∧
        db' = db.updateRun runId (fun _ => true) (·.claimed now leaseSeconds token)
          fun _ => RunRow.keys_claimed)) := by
  unfold claimVerificationRun at h
  split at h
  case h_1 => cases h
  case h_2 row hr =>
    refine ⟨row, hr, ?_⟩
    split at h <;> cases h
    case isTrue hw  => exact .inl ⟨hw, rfl, rfl⟩
    case isFalse hw => exact .inr ⟨by simpa using hw, by simp [run?_updateRun, hr], rfl⟩

theorem renewVerificationLease_cases {res : Option RunRow}
    (h : db.renewVerificationLease runId token now leaseSeconds = .ok (db', res)) :
    ∃ row, db.run? runId = some row ∧ row.owned token = true ∧
      ∃ guard, guard row = true ∧
        db' = db.updateRun runId guard (·.renewed now leaseSeconds) fun _ => RunRow.keys_renewed := by
  simp only [renewVerificationLease] at h
  split at h
  case isTrue => cases h
  case isFalse =>
  split at h
  case isTrue => split at h <;> cases h
  case isFalse hc =>
    cases h
    have ⟨row, hr, hg⟩ := runCount_eq_one_iff.mp (not_not.mp hc)
    exact ⟨row, hr, by simp at hg; exact hg.1, _, hg, rfl⟩

theorem completeVerificationRun_cases {outcome : Json.Dict} {code : Option String}
    {res : Option RunRow} (h : db.completeVerificationRun runId token outcome code = .ok (db', res)) :
    ∃ row, db.run? runId = some row ∧
      ((row.state = .completed ∧ db' = db ∧ res = some row) ∨
       (row.owned token = true ∧ res = some (row.completed outcome code) ∧
        db' = db.updateRun runId (·.owned token) (·.completed outcome code)
          fun _ => RunRow.keys_completed)) := by
  unfold completeVerificationRun at h
  split at h
  case isTrue =>
    split at h
    case h_1 => cases h
    case h_2 row hr =>
      split at h <;> cases h
      case isTrue hs => exact ⟨row, hr, .inl ⟨hs, rfl, rfl⟩⟩
  case isFalse hc =>
    cases h
    have ⟨row, hr, ho⟩ := runCount_eq_one_iff.mp (not_not.mp hc)
    exact ⟨row, hr, .inr ⟨ho, by simp [run?_updateRun, hr, ho], rfl⟩⟩

theorem blockVerificationWorkflow_ok (h : db.blockVerificationWorkflow row errorCode = .ok db') :
    db'.runs = db.runs ∧ db'.contracts = db.contracts ∧
      ∃ workflow, db.workflow? row.nodeId = some workflow ∧
        Appends db (retryExhaustedEvent row workflow errorCode) workflow.testContractVersion db' := by
  unfold blockVerificationWorkflow at h
  split at h
  case h_1 => cases h
  case h_2 workflow hw =>
  split at h
  case isTrue => cases h
  case isFalse hs =>
    have ⟨workflows, hu, hi⟩ := Except.bind_eq_ok_iff.mp h
    have ⟨⟨events, hins, hev⟩, hwf, hct, hrn⟩ := insertEvent_ok hi
    refine ⟨hrn, hct, workflow, hw, ?_⟩
    exact {
      fresh       := Table.lookup_eq_none_iff.mpr fun e he hk =>
        Table.insert?_fresh hins he hk List.mem_cons_self
      from_eq     := by simpa [stateOf, retryExhaustedEvent, hw] using hs
      allowed     := by
        simp only [retryExhaustedEvent]
        cases row.phase <;> decide
      to_eq       := rfl
      revision_eq := by simp [revisionOf, retryExhaustedEvent, hw]
      workflow_eq := by
        intro n
        have hk : row.nodeId = workflow.nodeId := by simpa using Table.lookup_key hw
        have hl : db'.workflow? n = workflows.lookup n := by rw [workflow?, hwf]
        rw [hl, updateWorkflow_ok hu n]
        by_cases hn : n = row.nodeId
        case pos => simp [retryExhaustedEvent, hn, hw, ← hk]
        case neg => simp [retryExhaustedEvent, hn]
      events_eq   := by rw [hev]; exact Table.insert?_rows hins
    }

theorem deferOwnedRun_cases {exhausted : Bool} {retryAt : Option Timestamp}
    (hr : db.run? row.runId = some row)
    (h : db.deferOwnedRun row token errorCode limit exhausted retryAt = .ok db') :
    row.owned token = true ∧
      let db₁ := db.updateRun row.runId (·.owned token)
        (·.deferred limit exhausted retryAt errorCode) fun _ => RunRow.keys_deferred
      (exhausted = false ∧ db' = db₁) ∨
      (exhausted = true ∧ db₁.blockVerificationWorkflow row errorCode = .ok db') := by
  simp only [deferOwnedRun] at h
  split at h
  case isTrue => cases h
  case isFalse hc =>
    have ⟨row', hr', ho⟩ := runCount_eq_one_iff.mp (not_not.mp hc)
    cases hr.symm.trans hr'
    refine ⟨ho, ?_⟩
    split at h
    case isTrue he  => exact .inr ⟨he, h⟩
    case isFalse he => exact .inl ⟨by simpa using he, (Except.ok.inj h).symm⟩

theorem deferVerificationRun_cases {maxAttempts : Option Int} {res : Option RunRow}
    (h : db.deferVerificationRun runId token errorCode now maxAttempts = .ok (db', res)) :
    ∃ row retryAt, db.run? runId = some row ∧ row.owned token = true ∧
      let retryLimit := maxAttempts.getD row.maxAttempts
      let exhausted : Bool := retryLimit ≤ row.attempt
      let db₁ := db.updateRun runId (·.owned token)
        (·.deferred retryLimit exhausted retryAt errorCode) fun _ => RunRow.keys_deferred
      (exhausted = false ∧ db' = db₁) ∨
      (exhausted = true ∧ db₁.blockVerificationWorkflow row errorCode = .ok db') := by
  simp only [deferVerificationRun] at h
  split at h
  case h_1 => cases h
  case h_2 row hr =>
  split at h
  case isTrue => cases h
  case isFalse =>
    have ⟨retryAt, _, h⟩ := Except.bind_eq_ok_iff.mp h
    have ⟨db₂, hd, hres⟩ := Except.bind_eq_ok_iff.mp h
    cases hres
    have hid : row.runId = runId := run?_eq_some_iff.mp hr |>.right
    subst hid
    have ⟨ho, hcases⟩ := deferOwnedRun_cases hr hd
    exact ⟨row, retryAt, hr, ho, hcases⟩

end Spec
end Db
end Plan
