import Mathlib.Algebra.Order.Group.Int
import Mathlib.Data.List.Infix
import BridleModel.Container.Classification
import BridleModel.Python.Text

-- The entrypoint of a module container: it runs the requested commands in the active slot and reports them by a
-- control envelope and an exit status.
namespace Container

abbrev Hashes := List (String × String)

section Requests

-- `bridle.container_test_request/v1`
structure Request where
  commands        : List TestCommandSnapshot
  writeSet        : List String
  redVerification : Bool
  baseline        : Option Hashes
  mocks           : Option Hashes
deriving DecidableEq, Repr

structure Lease where
  candidateRel : String
  runId        : String
  token        : String
deriving DecidableEq, Repr

end Requests

section Results

-- An exit status, or the negated number of the signal that ended the process.
abbrev ReturnCode := { n : Int // -64 ≤ n ∧ n < 256 }

-- What the subprocess of a command leaves behind.
structure Ran where
  returnCode       : ReturnCode
  stdout           : String
  stderr           : String
  timedOut         : Bool
  caseResults      : List CaseResult
  collectionErrors : List CollectionError
deriving DecidableEq, Repr

structure CommandResult extends CommandEvidence where
  argv       : List String
  rawCommand : String
  exitCode   : Int
  stdout     : String
  stderr     : String
deriving DecidableEq, Repr

inductive ManifestStatus
  | completed
  | failed
deriving DecidableEq, Repr

structure Manifest where
  schema            : String
  status            : ManifestStatus
  errorCode         : Option String
  exitCode          : Int
  results           : List CommandResult
  changedPaths      : List String
  outOfScopeChanges : List String
  candidateRel      : Option String
deriving DecidableEq, Repr

def Manifest.evidence (m : Manifest) : RunEvidence :=
  { errorCode := m.errorCode, results := m.results.map (·.toCommandEvidence) }

structure ControlEnvelope where
  schema       : String
  version      : Int
  producer     : String
  runId        : String
  candidateRel : Option String
  exitCode     : Int
  manifest     : Manifest
deriving DecidableEq, Repr

def controlEnvelopeSchema : String := "bridle.container_control_envelope/v1"
def controlEnvelopeVersion : Int := 1
def entrypointProducer : String := "bridle.entrypoint/v1"
def resultSchema : String := "bridle.container_test_result/v1"

-- A line of the standard output; the entrypoint prints the second kind.
inductive Line
  | text (text : String)
  | control (envelope : ControlEnvelope)
deriving DecidableEq, Repr

def buildControlEnvelope (manifest : Manifest) (runId : String) (candidateRel : Option String)
    (exitCode : Int) : ControlEnvelope where
  schema       := controlEnvelopeSchema
  version      := controlEnvelopeVersion
  producer     := entrypointProducer
  runId        := runId
  candidateRel := candidateRel
  exitCode     := exitCode
  manifest     := manifest

end Results

section Entrypoint

-- What the entrypoint meets: its environment, the mounts before and after the commands, and the subprocesses.
structure Slot where
  leaseToken    : String
  runId         : String
  lease         : Option Lease
  request       : Except String Request
  baseline      : Hashes
  mocks         : Hashes
  project       : Hashes
  baselineAfter : Hashes
  mocksAfter    : Hashes
  projectAfter  : Hashes
  ran           : Nat → Ran

-- The standard output and the exit status of a process that ends by `SystemExit(exit_code)`.
structure Exit where
  stdout : List Line
  status : Int
deriving DecidableEq, Repr

def emitTaskResult (slot : Slot) (manifest : Manifest) (exitCode : Int) (candidateRel : Option String) : Exit :=
  { stdout := [.control (buildControlEnvelope manifest (Python.strip slot.runId) candidateRel exitCode)]
    status := exitCode % 256 }

def writeFailure (slot : Slot) (errorCode : String) (exitCode : Int) (results : List CommandResult) : Exit :=
  emitTaskResult slot
    { schema            := resultSchema
      status            := .failed
      errorCode         := some errorCode
      exitCode          := exitCode
      results           := results
      changedPaths      := []
      outOfScopeChanges := []
      candidateRel      := none }
    exitCode none

def commandResult (cmd : TestCommandSnapshot) (ran : Ran) : CommandResult where
  commandId        := some cmd.commandId
  timedOut         := ran.timedOut
  caseResults      := ran.caseResults
  collectionErrors := ran.collectionErrors
  argv             := cmd.argv
  rawCommand       := cmd.rawCommand
  exitCode         := ran.returnCode
  stdout           := ran.stdout
  stderr           := ran.stderr

-- The loop over the commands; the error is a command that is not allowed, with the results before it.
def runCommands (request : Request) (ran : Nat → Ran) :
    List TestCommandSnapshot → List CommandResult → Int → Except (List CommandResult) (List CommandResult × Int)
  | [],        results, exitCode => .ok (results, exitCode)
  | cmd :: tl, results, exitCode =>
    if cmd.argv = [] ∨ cmd.commandId ∉ request.commands.map (·.commandId) then
      .error results
    else
      let result := commandResult cmd (ran results.length)
      let results := results ++ [result]
      if result.exitCode ≠ 0 ∨ result.timedOut then
        if result.timedOut ∨ ¬request.redVerification then .ok (results, result.exitCode)
        else runCommands request ran tl results result.exitCode
      else
        runCommands request ran tl results exitCode

-- The paths whose hash differs between two scans of a tree.
def changedPaths (before after : Hashes) : List String :=
  sortedSet ((before ++ after).map (·.fst) |>.filter fun rel => Assoc.get before rel ≠ Assoc.get after rel)

def isEphemeralTestArtifact (rel : String) : Bool :=
  let normalized := rel.toList.map fun c => if c = '\\' then '/' else c
  normalized = ".pytest_cache".toList ∨ ".pytest_cache/".toList <+: normalized ∨
    "/__pycache__/".toList <:+: '/' :: normalized ++ ['/'] ∨ ".pyc".toList <:+ normalized

def outOfScope (request : Request) (slot : Slot) : List String :=
  (changedPaths slot.project slot.projectAfter).filter fun rel =>
    rel ∉ request.writeSet ∧ ¬isEphemeralTestArtifact rel

def taskManifest (request : Request) (slot : Slot) (candidateRel : Option String)
    (results : List CommandResult) (exitCode : Int) : Manifest where
  schema            := resultSchema
  status            := if outOfScope request slot = [] ∧ exitCode = 0 then .completed else .failed
  errorCode         :=
    if outOfScope request slot ≠ [] then some "out_of_scope_change"
    else if exitCode ≠ 0 then some "test_failed"
    else none
  exitCode          := if outOfScope request slot ≠ [] then 4 else exitCode
  results           := results
  changedPaths      := changedPaths slot.project slot.projectAfter
  outOfScopeChanges := outOfScope request slot
  candidateRel      := candidateRel

def runTaskAtLayout (slot : Slot) (candidateRel : String) : Exit :=
  match slot.request with
  | .error message => writeFailure slot message 2 []
  | .ok request    =>
    if request.baseline.any (· ≠ slot.baseline) then
      writeFailure slot "baseline_or_mock_tampered" 5 []
    else if request.mocks.any (· ≠ slot.mocks) then
      writeFailure slot "baseline_or_mock_tampered" 5 []
    else
      match runCommands request slot.ran request.commands [] 0 with
      | .error results           => writeFailure slot "test_target_not_allowed" 3 results
      | .ok (results, exitCode) =>
        if slot.baseline ≠ slot.baselineAfter ∨ slot.mocks ≠ slot.mocksAfter then
          writeFailure slot "baseline_or_mock_tampered" 5 results
        else
          let manifest := taskManifest request slot (some candidateRel) results exitCode
          emitTaskResult slot manifest manifest.exitCode (some candidateRel)

-- Without a lease file the entrypoint ends by an `AttributeError`, which prints no envelope.
def runActiveSlotTask (slot : Slot) : Exit :=
  let token := Python.strip slot.leaseToken
  if token ≠ "" ∧ slot.lease.all (·.token ≠ token) then
    writeFailure slot "active_slot_lease_mismatch" 2 []
  else
    match slot.lease with
    | none       => { stdout := [], status := 1 }
    | some lease => runTaskAtLayout slot lease.candidateRel

end Entrypoint
end Container
