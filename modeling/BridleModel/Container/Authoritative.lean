import BridleModel.Container.Contract
import BridleModel.Container.Verification

-- An authoritative run of a candidate's tests: the commands compiled from their texts, the request, and the
-- evidence of the test backend.
namespace Container

open Python

section Compile

-- What the compilation takes from the command policies and from `shlex`.
structure CommandPolicy where
  validate     : String → List String               -- `TestCommandPolicy.validate`
  policyErrors : List String → String → List String -- `SandboxPolicy.validate_test_command` for these commands
  split        : String → Except Exc (List String)  -- `shlex.split(text, posix=False)`

def commandIdOf (sha256 : String → String) (testEntityId : String) (mapSeq : Int) (text : String) : String :=
  String.ofList <| (sha256 (testEntityId ++ ":" ++ toString mapSeq ++ ":" ++ text)).toList.take 16

def compileCommand (policy : CommandPolicy) (sha256 : String → String) (testEntityId : String) (mapSeq : Int)
    (text : String) : Except Exc ContractCommand :=
  match policy.validate text with
  | error :: _ => .error (.valueError ("test_target_not_allowed: " ++ error))
  | []         => do
    let argv ← policy.split text
    return { commandId := commandIdOf sha256 testEntityId mapSeq text, argv, rawCommand := text, testEntityId, mapSeq }

def compileCommands (policy : CommandPolicy) (sha256 : String → String) (testCommands : List String)
    (testEntityId : String) (mapSeq : Int) : Except Exc (List ContractCommand) :=
  (testCommands.map strip |>.filter (· ≠ "")).mapM (compileCommand policy sha256 testEntityId mapSeq)

end Compile

section Run

-- The trees of a candidate, as `tree_hashes` scans them.
structure Trees where
  project  : Hashes
  baseline : Hashes
  mocks    : Hashes
deriving DecidableEq, Repr

def requestManifest (approved : List ContractCommand) (writeSet : List String) (redVerification : Bool)
    (trees : Trees) : Request where
  commands        := approved.map (·.toTestCommandSnapshot)
  writeSet        := writeSet
  redVerification := redVerification
  baseline        := some trees.baseline
  mocks           := some trees.mocks

-- How the exec ends on the host.
inductive Ending
  | exited
  | timeout
  | failed
deriving DecidableEq, Repr

-- What a run meets besides the staged request and trees.
structure Surroundings where
  prepared      : Except String Unit
  acquired      : Except AcquireError String
  ending        : Ending
  collected     : Bool
  leaseToken    : String
  lease         : Option Lease
  baselineAfter : Hashes
  mocksAfter    : Hashes
  projectAfter  : Hashes
  ran           : Nat → Ran

def Surroundings.slot (s : Surroundings) (request : Request) (trees : Trees) (runId : String) : Slot where
  leaseToken    := s.leaseToken
  runId         := runId
  lease         := s.lease
  request       := .ok request
  baseline      := trees.baseline
  mocks         := trees.mocks
  project       := trees.project
  baselineAfter := s.baselineAfter
  mocksAfter    := s.mocksAfter
  projectAfter  := s.projectAfter
  ran           := s.ran

def Surroundings.transaction (s : Surroundings) (slot : Slot) : Transaction where
  prepared  := s.prepared
  acquired  := s.acquired
  execution :=
    match s.ending with
    | .exited  => .exited slot
    | .timeout => .timeout
    | .failed  => .failed
  collected := s.collected

end Run

section Evidence

structure VerificationEvidence where
  executedCommandIds : List String
  passedCommandIds   : List String
  failedCommandIds   : List String
  allRequiredPassed  : Bool
deriving DecidableEq, Repr

-- The sets `_passed_ids` and `_failed_ids`.
structure Outcomes where
  passed : List String := []
  failed : List String := []
deriving DecidableEq, Repr

def Outcomes.note (o : Outcomes) (item : CommandResult) : Outcomes :=
  match item.observedId with
  | none           => o
  | some commandId =>
    if item.exitCode = 0 ∧ item.timedOut = false then
      { passed := o.passed.insert commandId, failed := o.failed.filter (· ≠ commandId) }
    else
      { o with failed := o.failed.insert commandId }

-- `_sync_evidence_state`
def Outcomes.evidence (o : Outcomes) (requiredCommandIds : List String) : VerificationEvidence where
  executedCommandIds := sortedSet (o.passed ++ o.failed)
  passedCommandIds   := sortedSet o.passed
  failedCommandIds   := sortedSet o.failed
  allRequiredPassed  := o.failed = [] ∧ requiredCommandIds ≠ [] ∧ ∀ id ∈ requiredCommandIds, id ∈ o.passed

structure Authoritative where
  report    : Report
  retryable : Bool
  evidence  : VerificationEvidence
deriving DecidableEq, Repr

-- `run_authoritative_tests` up to the classification, from evidence that is empty.
def runAuthoritativeTests (policyErrors : String → List String) (commands requiredCommandIds : List String)
    (t : Transaction) (runId candidateRel : String) : Option Authoritative :=
  if commands.any fun cmd => policyErrors cmd ≠ [] then
    some {
      report    := { status := .failed, errorCode := some "CommandPolicyError", results := [] }
      retryable := false
      evidence  := Outcomes.evidence {} requiredCommandIds
    }
  else
    match runTestsInCandidate t runId candidateRel with
    | .error none             => none
    | .error (some errorCode) =>
      some {
        report    := { status := .failed, errorCode := some errorCode, results := resultsFromError errorCode }
        retryable := errorCode ∈ ["container_wait_timeout", "container_exec_failed"]
        evidence  := Outcomes.evidence {} requiredCommandIds
      }
    | .ok manifest            =>
      let results := manifest.results.map resultItem
      let evidence := (manifest.results.foldl Outcomes.note {}).evidence requiredCommandIds
      if manifest.status ≠ .completed then
        let errorCode := manifest.errorCode.filter (· ≠ "") |>.getD "TestCommandFailed"
        some {
          report    := { status := .failed, errorCode := some errorCode, results }
          retryable := manifest.errorCode = some "container_wait_timeout"
          evidence
        }
      else
        some { report := { status := .completed, errorCode := none, results }, retryable := false, evidence }

-- The report is the one that a red run classifies.
theorem runAuthoritativeTests_report {policyErrors : String → List String} {commands ids : List String}
    {t : Transaction} {runId candidateRel : String} :
    (runAuthoritativeTests policyErrors commands ids t runId candidateRel).map (·.report) =
      runTests policyErrors commands t runId candidateRel := by
  rw [runAuthoritativeTests, runTests]
  cases hr : runTestsInCandidate t runId candidateRel with
  | error e     =>
    cases e with
    | none   => split <;> rfl
    | some _ => split <;> rfl
  | ok manifest =>
    by_cases hm : manifest.status ≠ .completed
    case pos => simp only [hm, if_true]; split <;> rfl
    case neg => simp only [hm, if_false]; split <;> rfl

end Evidence
end Container
