import BridleModel.Container.Entrypoint

-- A red verification on the host: the transaction of the module around the entrypoint, and the layers above it
-- that report its outcome, up to the classification that the test backend keeps.
namespace Container

section Transaction

structure ExecResult where
  exitCode : Option Int
  stdout   : List Line
deriving DecidableEq, Repr

-- `ModuleTransactionFailure` and its subclasses
inductive FailureKind
  | create
  | start
  | exec (timedOut exitFailed : Bool)
  | collect
deriving DecidableEq, Repr

structure TransactionFailure where
  kind               : FailureKind
  exitCode           : Option Int    := none
  secondaryErrorCode : Option String := none
deriving DecidableEq, Repr

-- What a transaction raises: a failure of its own, the `CandidatePathError` of `prepare`, or any other exception.
inductive Raised
  | failure (f : TransactionFailure)
  | candidatePath (errorCode : String)
  | other
deriving DecidableEq, Repr

-- How `runner.exec` ends
inductive Execution
  | timeout
  | failed
  | exited (slot : Slot)

inductive AcquireError
  | create
  | start
  | other
deriving DecidableEq, Repr

-- What happens around one run: whether `prepare` meets a bad path, which container the module gets, how the
-- exec ends, and whether `collect` succeeds.
structure Transaction where
  prepared  : Except String Unit
  acquired  : Except AcquireError String
  execution : Execution
  collected : Bool

def exitResult (e : Exit) : ExecResult :=
  { exitCode := some e.status, stdout := e.stdout }

def nonzeroExit (r : ExecResult) : Bool :=
  r.exitCode ∉ [some 0, none]

def TransactionFailure.raised (f : TransactionFailure) (collected : Bool) : Raised :=
  .failure (if collected then f else { f with secondaryErrorCode := some "active_slot_collect_failed" })

def execTask (t : Transaction) : Except TransactionFailure ExecResult :=
  match t.execution with
  | .timeout     => .error { kind := .exec true false }
  | .failed      => .error { kind := .exec false false }
  | .exited slot =>
    let result := exitResult (runActiveSlotTask slot)
    if nonzeroExit result then
      .error { kind := .exec false true, exitCode := result.exitCode }
    else .ok result

def runModuleTransaction (t : Transaction) : Except Raised (String × ExecResult) :=
  match t.prepared with
  | .error errorCode => .error (.candidatePath errorCode)
  | .ok _            =>
    match t.acquired with
    | .error .create =>
      .error (TransactionFailure.raised { kind := .create } t.collected)
    | .error .start =>
      .error (TransactionFailure.raised { kind := .start } t.collected)
    | .error .other => .error .other
    | .ok containerId =>
      match execTask t with
      | .error f   => .error (f.raised t.collected)
      | .ok result =>
        if t.collected then .ok (containerId, result)
        else .error (.failure { kind := .collect, exitCode := result.exitCode })

end Transaction

section Backend

def primaryErrorCode : FailureKind → String
  | .create         => "container_create_failed"
  | .start          => "container_start_failed"
  | .collect        => "active_slot_collect_failed"
  | .exec true _    => "container_wait_timeout"
  | .exec _ true    => "container_exit_failed"
  | .exec _ _       => "container_exec_failed"

-- `run_candidate_test_transaction` and `_finalize_exec_result`; the error is the code of an `OrchestrationError`,
-- or none for an exception that is not translated.
def runCandidateTestTransaction (t : Transaction) : Except (Option String) (String × ExecResult) :=
  match runModuleTransaction t with
  | .error (.failure f)               => .error (some (primaryErrorCode f.kind))
  | .error (.candidatePath errorCode) =>
    .error <| some <|
      if errorCode = "active_slot_root_link" then "active_slot_root_link"
      else if errorCode = "active_slot_root_permission" then "active_slot_root_permission"
      else "active_slot_prepare_failed"
  | .error .other                     => .error none
  | .ok (containerId, result)         =>
    if nonzeroExit result then .error (some "container_exit_failed") else .ok (containerId, result)

-- The last control line of the output.
def lastControl (stdout : List Line) : Option ControlEnvelope :=
  (stdout.filterMap fun
    | .control envelope => some envelope
    | .text _           => none).getLast?

def validateEnvelopeStructure (e : ControlEnvelope) : Except String ControlEnvelope :=
  if e.schema ≠ controlEnvelopeSchema then .error "control_envelope_schema_mismatch"
  else if e.version ≠ controlEnvelopeVersion then .error "control_envelope_version_mismatch"
  else if e.producer ≠ entrypointProducer then .error "control_envelope_producer_mismatch"
  else if e.manifest.schema ≠ resultSchema then .error "control_envelope_manifest_schema_mismatch"
  else if e.manifest.exitCode ≠ e.exitCode then .error "control_envelope_manifest_exit_mismatch"
  else .ok e

def validateBinding (e : ControlEnvelope) (runId candidateRel : String) : Except String ControlEnvelope :=
  if e.runId ≠ runId then .error "control_envelope_run_mismatch"
  else if e.candidateRel.getD "" ≠ candidateRel then .error "control_envelope_candidate_mismatch"
  else .ok e

def parseControlEnvelope (stdout : List Line) (runId candidateRel : String) : Except String ControlEnvelope := do
  match lastControl stdout with
  | none   => .error "control_envelope_missing"
  | some e => validateBinding (← validateEnvelopeStructure e) runId candidateRel

def acceptControlEvidence (e : ControlEnvelope) (exitCode : Option Int) (runId candidateRel : String) :
    Except String ControlEnvelope := do
  let e ← validateBinding (← validateEnvelopeStructure e) runId candidateRel
  match exitCode with
  | none      => .error "control_evidence_exec_exit_missing"
  | some exit =>
    if e.exitCode ≠ exit then .error "control_evidence_exec_exit_mismatch"
    else if e.manifest.exitCode ≠ exit then .error "control_evidence_manifest_exit_mismatch"
    else .ok e

-- The manifest of the payload, or the code of an `AgentContainerError`.
def runTestsInCandidate (t : Transaction) (runId candidateRel : String) : Except (Option String) Manifest := do
  let (_, result) ← runCandidateTestTransaction t
  let accepted : Except String ControlEnvelope := do
    let e ← parseControlEnvelope result.stdout runId candidateRel
    acceptControlEvidence e result.exitCode runId candidateRel
  match accepted with
  | .error errorCode => .error (some errorCode)
  | .ok e            => .ok e.manifest

end Backend

section TestBackend

structure Report where
  status    : ManifestStatus
  errorCode : Option String
  results   : List CommandEvidence
deriving DecidableEq, Repr

def resultItem (item : CommandResult) : CommandEvidence :=
  { item.toCommandEvidence with commandId := item.observedId }

def resultsFromError (errorCode : String) : List CommandEvidence :=
  [{ commandId := none, timedOut := errorCode = "container_wait_timeout", caseResults := []
     collectionErrors := [] }]

-- `_run_tests` up to the classification, with the errors of the command policy. Other exceptions than
-- `AgentContainerError` leave no report.
def runTests (policyErrors : String → List String) (commands : List String) (t : Transaction)
    (runId candidateRel : String) : Option Report :=
  if commands.any fun cmd => policyErrors cmd ≠ [] then
    some { status := .failed, errorCode := some "CommandPolicyError", results := [] }
  else
    match runTestsInCandidate t runId candidateRel with
    | .error none             => none
    | .error (some errorCode) =>
      some { status := .failed, errorCode := some errorCode, results := resultsFromError errorCode }
    | .ok manifest            =>
      let results := manifest.results.map resultItem
      if manifest.status ≠ .completed then
        let errorCode := manifest.errorCode.filter (· ≠ "") |>.getD "TestCommandFailed"
        some { status := .failed, errorCode := some errorCode, results }
      else
        some { status := .completed, errorCode := none, results }

-- The value that `_attach_red_classification` stores.
def attachRedClassification (contract : FrozenTestContract) (report : Report) :
    Except String RedClassificationResult :=
  classifyRedVerification contract { errorCode := report.errorCode, results := report.results }

end TestBackend
end Container
