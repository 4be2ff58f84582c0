import BridleModel.Container.Authoritative
import BridleModel.Orchestrator.Worker

-- `CandidateVerificationExecutor`: the verdict on a run from the tests of its candidate.
namespace Orchestrator

open Container Plan

section Candidate

-- The candidate request of a workspace manifest, with the trees under its root.
structure Candidate where
  candidateId         : String
  nodeId              : String
  baseMapSeq          : Int
  boundaryFingerprint : String
  imageVersion        : String
  writeSet            : List String
  trees               : Trees
deriving DecidableEq, Repr

-- `TemporaryVerificationUnavailable`, or any other exception
inductive ExecutorError
  | unavailable (errorCode : String)
  | raised
deriving DecidableEq, Repr

-- `manifests` are the workspace manifests found under the candidate's ID; one that cannot be read is `none`.
def loadCandidateRequest (manifests : List (Option Candidate)) (candidateId nodeId : String) :
    Except ExecutorError Candidate :=
  if candidateId = "" then .error (.unavailable "verification_candidate_missing")
  else
    match manifests with
    | [none]         => .error (.unavailable "verification_candidate_manifest_invalid")
    | [some request] =>
      if request.candidateId ≠ candidateId ∨ request.nodeId ≠ nodeId then
        .error (.unavailable "verification_candidate_identity_mismatch")
      else .ok request
    | _              => .error (.unavailable "verification_candidate_manifest_missing")

end Candidate

section Classification

def classificationName : RedClassification → String
  | .expectedRed        => "EXPECTED_RED"
  | .unexpectedRed      => "UNEXPECTED_RED"
  | .invalidTest        => "INVALID_TEST"
  | .infraError         => "INFRA_ERROR"
  | .baselineRegression => "BASELINE_REGRESSION"

def redEvent : RedClassification → ModificationEvent
  | .expectedRed        => .redConfirmed
  | .unexpectedRed      => .invalidTest
  | .invalidTest        => .invalidTest
  | .infraError         => .infrastructureFailed
  | .baselineRegression => .baselineExpired

def texts (ids : List String) : Json :=
  .arr (ids.map .str)

def commandSummary (e : VerificationEvidence) : Json.Dict :=
  [("executed_command_ids", texts e.executedCommandIds), ("failed_command_ids", texts e.failedCommandIds)]

def redResult (e : VerificationEvidence) (c : RedClassificationResult) : VerificationResult where
  event     := redEvent c.classification
  status    := (classificationName c.classification).toLower
  errorCode := some (if c.errorCode = "" then "invalid_test" else c.errorCode)
  summary   := commandSummary e ++ [
    ("classification", .str (classificationName c.classification)),
    ("failed_case_ids", texts c.failedCaseIds),
    ("unexpected_case_ids", texts c.unexpectedCaseIds),
    ("baseline_failed_case_ids", texts c.baselineFailedCaseIds)
  ]

def finalResult (a : Authoritative) : VerificationResult :=
  let passed : Bool := a.report.status = .completed ∧ a.evidence.allRequiredPassed
  {
    event     := if passed then .finalVerificationPassed else .finalVerificationFailed
    status    := if passed then "passed" else "failed"
    errorCode := if passed then none else some (a.report.errorCode.filter (· ≠ "") |>.getD "test_failed")
    summary   := commandSummary a.evidence
  }

end Classification

def baselineExpired : VerificationResult where
  event     := .baselineExpired
  status    := "baseline_expired"
  errorCode := some "verification_candidate_contract_mismatch"
  summary   := []

section Execute

variable (policy : CommandPolicy) (sha256 : String → String)

-- The slot of a run: the container finds the request and the trees that the host has staged.
def stagedSlot (s : Surroundings) (run : RunRow) (request : Candidate) (approved : List ContractCommand) : Slot :=
  s.slot (requestManifest approved request.writeSet (run.phase = .red) request.trees) request.trees run.runId

def authoritativeTests (s : Surroundings) (run : RunRow) (request : Candidate) (contract : FrozenContract) :
    Except ExecutorError Authoritative :=
  let commands := contract.commands.map (·.rawCommand)
  let ids := contract.commands.map (·.commandId)
  -- A command that the policy rejects ends the run before anything is compiled.
  let approved :=
    if commands.any fun cmd => policy.policyErrors commands cmd ≠ [] then .ok []
    else compileCommands policy sha256 commands run.nodeId request.baseMapSeq
  match approved with
  | .error _     => .error .raised
  | .ok approved =>
    let t := s.transaction (stagedSlot s run request approved)
    match runAuthoritativeTests (policy.policyErrors commands) commands ids t run.runId
        ("candidates/" ++ request.candidateId) with
    | none   => .error .raised
    | some a => .ok a

def execute (manifests : List (Option Candidate)) (s : Surroundings) (run : RunRow) (contract : FrozenContract) :
    Except ExecutorError VerificationResult := do
  let request ← loadCandidateRequest manifests (run.candidateId.getD "") run.nodeId
  if request.baseMapSeq ≠ contract.mapSeq ∨ request.boundaryFingerprint ≠ contract.boundaryFingerprint ∨
      request.imageVersion ≠ contract.imageVersion then
    return baselineExpired
  let a ← authoritativeTests policy sha256 s run request contract
  Except.raiseIf a.retryable (.unavailable (a.report.errorCode.filter (· ≠ "") |>.getD
    "verification_container_unavailable"))
  match run.phase with
  | .red   =>
    match attachRedClassification contract.classified a.report with
    | .error _ => .error .raised
    | .ok c    => return redResult a.evidence c
  | .final => return finalResult a

end Execute
end Orchestrator
