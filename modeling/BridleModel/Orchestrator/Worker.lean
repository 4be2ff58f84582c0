import BridleModel.Library.Processes
import BridleModel.Plan.System

open Plan

namespace Orchestrator

def startedId (runId : String) : String :=
  "verification:" ++ runId ++ ":started"

def resultId (runId : String) : String :=
  "verification:" ++ runId ++ ":result"

-- `_TRIGGER`: the phase that a state asks for.
def trigger : ModificationState → Option Phase
  | .redAllowed => some .red
  | .submitted  => some .final
  | _           => none

-- `_RUNNING_PHASE`
def runningPhase : ModificationState → Option Phase
  | .redVerifying   => some .red
  | .finalVerifying => some .final
  | _               => none

def startEvent : Phase → ModificationEvent
  | .red   => .redVerificationStarted
  | .final => .finalVerificationStarted

-- `_ALLOWED_RESULT_EVENTS`
def allowedResultEvents : Phase → List ModificationEvent
  | .red   => [.redConfirmed, .invalidTest, .infrastructureFailed, .baselineExpired]
  | .final => [.finalVerificationPassed, .finalVerificationFailed, .baselineExpired]

structure VerificationResult where
  event     : ModificationEvent
  status    : String
  errorCode : Option String
  summary   : Json.Dict

-- `_validate_result`
def validResult (phase : Phase) (event : ModificationEvent) (status : String) : Bool :=
  event ∈ allowedResultEvents phase ∧ Python.strip status ≠ ""

section Summary

def clip (n : Nat) (text : String) : String :=
  String.ofList (text.toList.take n)

def clipItem : Json → Option Json
  | .str s => some <| .str (clip 256 s)
  | _      => none

def identifierLists : List String := [
  "failed_case_ids", "unexpected_case_ids", "baseline_failed_case_ids", "passed_case_ids",
  "executed_command_ids", "failed_command_ids", "required_command_ids"
]

-- `_sanitize_summary`
def sanitizeSummary (summary : Json.Dict) : Json.Dict :=
  identifierLists.filterMap idList ++ ["classification", "error_code"].filterMap textField ++
    requiredPassed ++ ["stdout", "stderr"].filterMap stream
where
  idList (key : String) : Option (String × Json) :=
    match summary.get key with
    | some (.arr items) => some (key, .arr <| (items.take 512).filterMap clipItem)
    | _                 => none
  textField (key : String) : Option (String × Json) :=
    match summary.get key with
    | some (.str s) => some (key, .str (clip 256 s))
    | _             => none
  requiredPassed : Json.Dict :=
    match summary.get "required_commands_passed" with
    | some (.num n)  => [("required_commands_passed", .num n)]
    | some (.bool b) => [("required_commands_passed", .bool b)]
    | _              => []
  stream (name : String) : Option (String × Json) :=
    match (summary.get name).or (summary.get (name ++ "_preview")) with
    | some (.str s) => some (name ++ "_preview", .str (clip 2048 s))
    | _             => none

end Summary

-- Where a call of `reconcile_node` stands between two of its transactions, with the values it has
-- read so far. `idle` is a worker between calls, also after one that raised or crashed.
inductive Worker
  | idle
  | triggered (workflow : WorkflowRow) (phase : Phase)
  | enqueuing (workflow : WorkflowRow) (phase : Phase) (candidateId : Option String)
  | starting (workflow : WorkflowRow) (phase : Phase) (run : RunRow)
  | rereading (nodeId : String)
  | gated (nodeId : String) (state : ModificationState)
  | claiming (nodeId : String) (phase : Phase) (runId : String)
  | claimed (nodeId : String) (phase : Phase) (run : RunRow)
  | executing (phase : Phase) (run : RunRow) (leaseLost : Bool)
  | applying (run : RunRow)

-- What the environment contributes to a step: a call, the clock, the drawn token, the verdict of the
-- executor. An exception anywhere ends the call like a crash.
inductive Input
  | reconcile (nodeId : String)
  | proceed
  | claim (now : Timestamp) (leaseSeconds : Int) (leaseToken : String)
  | renew (now : Timestamp) (leaseSeconds : Int)
  | finish (result : VerificationResult) (durationMs : Nat)
  | unavailable (errorCode : String) (now : Timestamp)
  | crash

section Transactions

-- `_candidate_id_from_events`
def candidateIdFromEvents (events : List EventRow) : Option String :=
  events.reverse.findSome? fun row =>
    match Json.textOrEmpty (row.payload.get "candidate_id") with
    | ""   => none
    | text => some text

-- The run ID that `_enqueue_from_trigger` derives.
def runIdOf (sha256 : String → String) (nodeId : String) (phase : Phase) (sourceRevision : Nat)
    (contractVersion : String) : String :=
  let identity :=
    nodeId ++ ":" ++ phase.value ++ ":" ++ toString sourceRevision ++ ":" ++ contractVersion
  "verify-" ++ clip 24 (sha256 identity)

-- `_enqueue_from_trigger`; `none` models an exception.
def enqueueFromTrigger (sha256 : String → String) (db : Db) (workflow : WorkflowRow) (phase : Phase)
    (candidateId : Option String) : Option (Db × RunRow) :=
  match workflow.testContractVersion with
  | none    => none
  | some "" => none
  | some v  =>
    let runId := runIdOf sha256 workflow.nodeId phase workflow.revision v
    (db.enqueueVerificationRun runId workflow.nodeId phase.value workflow.revision v candidateId
      5).toOption

def applyStart (db : Db) (workflow : WorkflowRow) (phase : Phase) (run : RunRow) :
    Except Error (Db × TransitionResult) :=
  db.apply workflow.nodeId (startEvent phase) (startedId run.runId) (some workflow.revision) <| some
    [("verification_run_id", .str run.runId), ("phase", .str run.phase.value)]

def outcomeOf (result : VerificationResult) (durationMs : Nat) : Json.Dict := [
  ("event", .str result.event.value),
  ("status", .str result.status),
  ("error_code", .ofOption result.errorCode),
  ("summary", .obj (sanitizeSummary result.summary)),
  ("duration_ms", .num durationMs)
]

-- `dict(value or {})` of a value in a JSON object.
def objOrEmpty : Option Json → Json
  | some (.obj fields) => .obj fields
  | _                  => .obj []

-- `_apply_authoritative_result`; `none` models an exception.
def applyAuthoritativeResult (db : Db) (run : RunRow) : Option Db := do
  let outcome ← run.outcome
  let event ← ModificationEvent.ofValue (Json.textOrEmpty (outcome.get "event"))
  if validResult run.phase event (Json.textOrEmpty (outcome.get "status")) then
    let result ← Except.toOption <| db.apply run.nodeId event (resultId run.runId) none <| some [
      ("verification_run_id", .str run.runId),
      ("phase", .str run.phase.value),
      ("status", (outcome.get "status").getD .null),
      ("error_code", (outcome.get "error_code").getD .null),
      ("summary", objOrEmpty (outcome.get "summary"))
    ]
    return result.fst
  else
    none

end Transactions

-- One step of `reconcile_node`: at most one transaction, and the code up to the next one.
def advance (sha256 : String → String) (db : Db) : Worker → Input → Option (Db × Worker)
  | _, .crash => some (db, .idle)
  | .idle, .reconcile nodeId =>
    match db.workflow? nodeId with
    | none          => some (db, .idle)
    | some workflow =>
      match trigger workflow.state with
      | some phase => some (db, .triggered workflow phase)
      | none       => some (db, .gated nodeId workflow.state)
  | .triggered workflow phase, .proceed =>
    some (db, .enqueuing workflow phase (candidateIdFromEvents (db.eventsOf workflow.nodeId)))
  | .enqueuing workflow phase candidateId, .proceed =>
    match enqueueFromTrigger sha256 db workflow phase candidateId with
    | none           => some (db, .idle)
    | some (db, run) => some (db, .starting workflow phase run)
  | .starting workflow phase run, .proceed =>
    match applyStart db workflow phase run with
    | .ok (db, res) => some (db, .gated workflow.nodeId res.state)
    | .error e      =>
      if e.code? = some "modification_revision_conflict" then
        some (db, .rereading workflow.nodeId)
      else
        some (db, .idle)
  | .rereading nodeId, .proceed =>
    match db.workflow? nodeId with
    | none          => some (db, .idle)
    | some workflow => some (db, .gated nodeId workflow.state)
  | .gated nodeId state, .proceed =>
    match runningPhase state, db.latestRun? nodeId with
    | some phase, some run =>
      if run.phase ≠ phase then
        some (db, .idle)
      else if run.state = .completed then
        some (db, .applying run)
      else
        some (db, .claiming nodeId phase run.runId)
    | _, _ => some (db, .idle)
  | .claiming nodeId phase runId, .claim now leaseSeconds leaseToken =>
    match db.claimVerificationRun runId now leaseSeconds leaseToken with
    | .ok (db, some run) => some (db, .claimed nodeId phase run)
    | _                  => some (db, .idle)
  | .claimed nodeId phase run, .proceed =>
    match db.contract? nodeId run.contractVersion with
    | none   => some (db, .idle)
    | some _ => some (db, .executing phase run false)
  | .executing phase run false, .renew now leaseSeconds =>
    match db.renewVerificationLease run.runId (run.leaseToken.getD "") now leaseSeconds with
    | .ok (db, _) => some (db, .executing phase run false)
    | .error _    => some (db, .executing phase run true)
  | .executing phase run leaseLost, .finish result durationMs =>
    if leaseLost ∨ ¬validResult phase result.event result.status then
      some (db, .idle)
    else
      match db.completeVerificationRun run.runId (run.leaseToken.getD "")
          (outcomeOf result durationMs) result.errorCode with
      | .ok (db, some completed) => some (db, .applying completed)
      | _                        => some (db, .idle)
  | .executing _ run leaseLost, .unavailable errorCode now =>
    if leaseLost then
      some (db, .idle)
    else
      match db.deferVerificationRun run.runId (run.leaseToken.getD "") errorCode now none with
      | .ok (db, _) => some (db, .idle)
      | .error _    => some (db, .idle)
  | .applying run, .proceed =>
    match applyAuthoritativeResult db run with
    | none    => some (db, .idle)
    | some db => some (db, .idle)
  | _, _ => none

-- Everybody else: transitions and contracts in any order. Event IDs that begin with `verification:`
-- are left to the orchestrator and the store.
def external (sha256 : String → String) (db : Db) (a : Action) : Option Db :=
  match a with
  | .apply _ _ eventId _ _ =>
    if "verification:".toList <+: eventId.toList then none else some (db.after sha256 a)
  | .freeze .. | .invalidate .. => some (db.after sha256 a)
  | _ => none

def orchestrator (sha256 : String → String) : Processes Db Worker Action Input where
  init db     := db = .empty
  start       := .idle
  environment := external sha256
  advance     := advance sha256

end Orchestrator
