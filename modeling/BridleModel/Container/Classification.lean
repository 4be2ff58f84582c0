import Mathlib.Data.List.Dedup
import Mathlib.Data.List.Sort
import Mathlib.Data.String.Basic
import BridleModel.Library.Assoc

-- The classification of a red run by the evidence of its cases.
namespace Container

structure TestCaseSnapshot where
  caseId : String
  nodeId : String
deriving DecidableEq, Repr

structure TestCommandSnapshot where
  commandId  : String
  argv       : List String
  rawCommand : String
deriving DecidableEq, Repr

-- What `FrozenTestContract.freeze` promises of the parts that the classification reads.
structure FrozenTestContract where
  cases                  : List TestCaseSnapshot
  commands               : List TestCommandSnapshot
  expectedFailureCaseIds : List String
  cases_required         : cases ≠ []
  commands_required      : commands ≠ []
  expected_required      : expectedFailureCaseIds ≠ []
  expected_known         : ∀ id ∈ expectedFailureCaseIds, id ∈ cases.map (·.caseId)

section Evidence

structure CaseResult where
  nodeId      : String
  outcome     : String
  phase       : String
  failureType : Option String
deriving DecidableEq, Repr

structure CollectionError where
  nodeId  : String
  message : String
deriving DecidableEq, Repr

-- The part of a command's result that the classification reads.
structure CommandEvidence where
  commandId        : Option String
  timedOut         : Bool
  caseResults      : List CaseResult
  collectionErrors : List CollectionError
deriving DecidableEq, Repr

structure RunEvidence where
  errorCode : Option String
  results   : List CommandEvidence
deriving DecidableEq, Repr

end Evidence

inductive RedClassification
  | expectedRed
  | unexpectedRed
  | invalidTest
  | infraError
  | baselineRegression
deriving DecidableEq, Repr

structure RedClassificationResult where
  classification        : RedClassification
  errorCode             : String
  failedCaseIds         : List String          := []
  unexpectedCaseIds     : List String          := []
  baselineFailedCaseIds : List String          := []
  collectionErrors      : List CollectionError := []
deriving DecidableEq, Repr

-- `tuple(sorted(set(ids)))`
def sortedSet (ids : List String) : List String :=
  ids.dedup.insertionSort (· ≤ ·)

theorem mem_sortedSet {ids : List String} {id : String} : id ∈ sortedSet ids ↔ id ∈ ids := by
  rw [sortedSet, List.mem_insertionSort, List.mem_dedup]

def infraErrorCodes : List String :=
  ["active_slot_collect_failed", "baseline_or_mock_tampered", "container_exec_failed", "container_wait_timeout"]

def infraErrorPrefixes : List String :=
  ["active_slot_", "container_", "control_"]

def isInfrastructureError (errorCode : String) : Bool :=
  errorCode ∈ infraErrorCodes ∨ ∃ start ∈ infraErrorPrefixes, start.toList <+: errorCode.toList

-- What the loop over the case results collects.
structure CaseEvidence where
  byCaseId   : List (String × CaseResult)
  unexpected : List String

namespace FrozenTestContract

variable (contract : FrozenTestContract)

def caseIdByNode : List (String × String) :=
  Assoc.dict (contract.cases.map fun c => (c.nodeId, c.caseId))

def contractedIds : List String :=
  contract.caseIdByNode.map (·.snd)

def addCase (e : CaseEvidence) (c : CaseResult) : CaseEvidence :=
  match Assoc.get contract.caseIdByNode c.nodeId with
  | some caseId => { e with byCaseId := Assoc.set e.byCaseId caseId c }
  | none        =>
    if c.outcome ∈ ["passed", "skipped"] then e
    else { e with unexpected := e.unexpected ++ [if c.nodeId = "" then "unknown_case" else c.nodeId] }

def caseEvidence (caseResults : List CaseResult) : CaseEvidence :=
  caseResults.foldl contract.addCase { byCaseId := [], unexpected := [] }

def baselineIds : List String :=
  contract.contractedIds.filter (· ∉ contract.expectedFailureCaseIds)

end FrozenTestContract

namespace CommandEvidence

-- `item.get("command_id")`, when it is there and not empty
def observedId (item : CommandEvidence) : Option String :=
  item.commandId.filter (· ≠ "")

end CommandEvidence

-- `evidence_by_case_id[case_id]`
def evidenceOf (e : CaseEvidence) (caseId : String) : Except String CaseResult :=
  match Assoc.get e.byCaseId caseId with
  | some c => .ok c
  | none   => .error caseId

-- The expected cases: those that failed by an assertion, then those that ended in another way and did not pass.
def expectedOutcomes (e : CaseEvidence) : List String → Except String (List String × List String)
  | []           => .ok ([], [])
  | caseId :: tl => do
    let c ← evidenceOf e caseId
    let (failed, other) ← expectedOutcomes e tl
    if c.outcome = "failed" ∧ c.failureType = some "AssertionError" then .ok (caseId :: failed, other)
    else if c.outcome ≠ "passed" then .ok (failed, caseId :: other)
    else .ok (failed, other)

def baselineFailed (e : CaseEvidence) : List String → Except String (List String)
  | []           => .ok []
  | caseId :: tl => do
    let c ← evidenceOf e caseId
    let failed ← baselineFailed e tl
    .ok (if c.outcome ≠ "passed" then caseId :: failed else failed)

-- The classification of a run that no infrastructure error ended; the error is the `KeyError` of a case
-- without evidence.
def classifyResults (contract : FrozenTestContract) (results : List CommandEvidence) :
    Except String RedClassificationResult := do
  let missingCommandIds := (contract.commands.map (·.commandId)).filter (· ∉ results.filterMap (·.observedId))
  if missingCommandIds ≠ [] then
    return {
      classification    := .invalidTest
      errorCode         := "required_command_evidence_missing"
      unexpectedCaseIds := sortedSet missingCommandIds
    }
  let collectionErrors := results.flatMap (·.collectionErrors)
  if collectionErrors ≠ [] then
    return { classification := .invalidTest, errorCode := "pytest_collection_failed", collectionErrors }
  let caseResults := results.flatMap (·.caseResults)
  if caseResults = [] then
    return { classification := .invalidTest, errorCode := "case_evidence_missing" }
  let e := contract.caseEvidence caseResults
  let missingIds := contract.contractedIds.filter fun id => (Assoc.get e.byCaseId id).isNone
  if missingIds ≠ [] then
    return {
      classification    := .invalidTest
      errorCode         := "contract_case_not_collected"
      unexpectedCaseIds := sortedSet missingIds
    }
  let failed ← baselineFailed e contract.baselineIds
  if failed ≠ [] then
    return {
      classification        := .baselineRegression
      errorCode             := "baseline_test_failed"
      failedCaseIds         := sortedSet failed
      baselineFailedCaseIds := sortedSet failed
    }
  let (failedExpected, other) ← expectedOutcomes e contract.expectedFailureCaseIds
  let unexpected := e.unexpected ++ other
  if unexpected ≠ [] then
    return {
      classification    := .unexpectedRed
      errorCode         := "unexpected_test_failure"
      failedCaseIds     := sortedSet (failedExpected ++ unexpected)
      unexpectedCaseIds := sortedSet unexpected
    }
  if failedExpected = [] then
    return { classification := .unexpectedRed, errorCode := "expected_red_missing" }
  return {
    classification := .expectedRed
    errorCode      := "expected_red"
    failedCaseIds  := sortedSet failedExpected
  }

def classifyRedVerification (contract : FrozenTestContract) (manifest : RunEvidence) :
    Except String RedClassificationResult :=
  let manifestError := manifest.errorCode.getD ""
  if manifest.results.any (·.timedOut) ∨ isInfrastructureError manifestError then
    .ok {
      classification := .infraError
      errorCode      := if manifestError = "" then "container_wait_timeout" else manifestError
    }
  else
    classifyResults contract manifest.results

end Container
