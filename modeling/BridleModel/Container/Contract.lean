import BridleModel.Container.Classification
import BridleModel.Library.Orders
import BridleModel.Library.SortBy
import BridleModel.Python.Text
import BridleModel.Python.Value

-- The frozen test contract: its normal form, its version and its JSON form.
namespace Container

open Python SortBy

section Requirements

structure TestFileSnapshot where
  path   : String
  sha256 : String
deriving DecidableEq, Repr

-- A command of the contract with the entity and the map that it was compiled for.
structure ContractCommand extends TestCommandSnapshot where
  testEntityId : String
  mapSeq       : Int
deriving DecidableEq, Repr

-- The arguments of `FrozenTestContract.freeze`.
structure Requirements where
  testFiles              : List TestFileSnapshot
  cases                  : List TestCaseSnapshot
  commands               : List ContractCommand
  expectedFailureCaseIds : List String
  baselineHash           : String
  mapSeq                 : Int
  boundaryFingerprint    : String
  imageVersion           : String
deriving DecidableEq, Repr

namespace Requirements

def normalized (r : Requirements) : Requirements :=
  {
    r with
    testFiles              := sortBy (·.path) r.testFiles
    cases                  := sortBy (·.nodeId) r.cases
    commands               := sortBy (·.commandId) r.commands
    expectedFailureCaseIds := sortedSet r.expectedFailureCaseIds
  }

-- The message of the `ValueError` that `freeze` raises for requirements in normal form.
def refusal (r : Requirements) : Option String :=
  if r.testFiles = [] then some "test_contract_files_required"
  else if r.cases = [] then some "test_contract_cases_required"
  else if r.commands = [] then some "test_contract_commands_required"
  else if r.expectedFailureCaseIds = [] then some "test_contract_expected_failure_scope_required"
  else if ∃ id ∈ r.expectedFailureCaseIds, id ∉ r.cases.map (·.caseId) then
    some "test_contract_expected_failure_case_unknown"
  else if r.mapSeq < 0 then some "test_contract_map_seq_invalid"
  else
    let required := [
      ("baseline_hash", r.baselineHash), ("boundary_fingerprint", r.boundaryFingerprint),
      ("image_version", r.imageVersion)
    ]
    (required.find? fun field => strip field.snd = "").map fun field =>
      "test_contract_" ++ field.fst ++ "_required"

-- The same requirements with their collections in another order.
structure Permutes (r r' : Requirements) : Prop where
  testFiles : r.testFiles.Perm r'.testFiles
  cases     : r.cases.Perm r'.cases
  commands  : r.commands.Perm r'.commands
  expected  : r.expectedFailureCaseIds.Perm r'.expectedFailureCaseIds
  baseline  : r.baselineHash = r'.baselineHash
  mapSeq    : r.mapSeq = r'.mapSeq
  boundary  : r.boundaryFingerprint = r'.boundaryFingerprint
  image     : r.imageVersion = r'.imageVersion

-- The keys of the three sorts tell the elements apart.
structure Separated (r : Requirements) : Prop where
  testFiles : Separates (·.path) r.testFiles
  cases     : Separates (·.nodeId) r.cases
  commands  : Separates (·.commandId) r.commands

end Requirements
end Requirements

section Json

-- `asdict(item)` of each kind of item
def TestFileSnapshot.json (f : TestFileSnapshot) : Json :=
  .obj [("path", .str f.path), ("sha256", .str f.sha256)]

def TestCaseSnapshot.json (c : TestCaseSnapshot) : Json :=
  .obj [("case_id", .str c.caseId), ("node_id", .str c.nodeId)]

def ContractCommand.json (c : ContractCommand) : Json :=
  .obj [
    ("command_id", .str c.commandId), ("argv", .arr (c.argv.map .str)), ("raw_command", .str c.rawCommand),
    ("test_entity_id", .str c.testEntityId), ("map_seq", .num c.mapSeq)
  ]

def testContractSchema : String :=
  "bridle.test_contract/v1"

def Requirements.snapshotPayload (r : Requirements) : Json.Dict :=
  [
    ("schema", .str testContractSchema),
    ("test_files", .arr (r.testFiles.map (·.json))),
    ("cases", .arr (r.cases.map (·.json))),
    ("commands", .arr (r.commands.map (·.json))),
    ("expected_failure_case_ids", .arr (r.expectedFailureCaseIds.map .str)),
    ("baseline_hash", .str r.baselineHash),
    ("map_seq", .num r.mapSeq),
    ("boundary_fingerprint", .str r.boundaryFingerprint),
    ("image_version", .str r.imageVersion)
  ]

end Json

-- A contract that `freeze` has returned; its version is a function of the other fields.
structure FrozenContract extends Requirements where
  normal   : toRequirements.normalized = toRequirements
  accepted : toRequirements.refusal = none

namespace FrozenContract

variable (sha256 : String → String)

def contractVersion (c : FrozenContract) : String :=
  sha256 (Json.dumps (.obj c.snapshotPayload))

def toDict (c : FrozenContract) : Json.Dict :=
  ("contract_version", .str (c.contractVersion sha256)) :: c.snapshotPayload

end FrozenContract

-- What the classification of a red run reads of a contract.
section Classified

variable {r : Requirements}

theorem Requirements.accepted (h : r.refusal = none) :
    r.testFiles ≠ [] ∧ r.cases ≠ [] ∧ r.commands ≠ [] ∧ r.expectedFailureCaseIds ≠ [] ∧
      (∀ id ∈ r.expectedFailureCaseIds, id ∈ r.cases.map (·.caseId)) ∧ 0 ≤ r.mapSeq := by
  rw [refusal] at h
  split at h
  case isTrue => cases h
  case isFalse h₁ =>
  split at h
  case isTrue => cases h
  case isFalse h₂ =>
  split at h
  case isTrue => cases h
  case isFalse h₃ =>
  split at h
  case isTrue => cases h
  case isFalse h₄ =>
  split at h
  case isTrue => cases h
  case isFalse h₅ =>
  split at h
  case isTrue => cases h
  case isFalse h₆ =>
  refine ⟨h₁, h₂, h₃, h₄, fun id hi => ?_, Int.not_lt.mp h₆⟩
  by_contra hn
  exact h₅ ⟨id, hi, hn⟩

def FrozenContract.classified (c : FrozenContract) : FrozenTestContract where
  cases                  := c.cases
  commands               := c.commands.map (·.toTestCommandSnapshot)
  expectedFailureCaseIds := c.expectedFailureCaseIds
  cases_required         := (Requirements.accepted c.accepted).2.1
  commands_required      := List.map_eq_nil_iff.not.mpr (Requirements.accepted c.accepted).2.2.1
  expected_required      := (Requirements.accepted c.accepted).2.2.2.1
  expected_known         := (Requirements.accepted c.accepted).2.2.2.2.1

end Classified

theorem sortedSet_sortedSet {ids : List String} : sortedSet (sortedSet ids) = sortedSet ids := by
  have hn : (sortedSet ids).Nodup := (List.perm_insertionSort _ _).nodup_iff.mpr ids.nodup_dedup
  rw [sortedSet, hn.dedup]
  exact (List.pairwise_insertionSort (· ≤ ·) ids.dedup).insertionSort_eq

theorem Requirements.normalized_normalized {r : Requirements} : r.normalized.normalized = r.normalized := by
  simp only [normalized, sortBy_sortBy, sortedSet_sortedSet]

def freeze (r : Requirements) : Except Exc FrozenContract :=
  match h : r.normalized.refusal with
  | some message => .error (.valueError message)
  | none         => .ok ⟨r.normalized, Requirements.normalized_normalized, h⟩

section FromDict

variable (py : Conversions) (sha256 : String → String)

def testFileFrom (item : Json) : Except Exc TestFileSnapshot := do
  let path ← subscript item "path"
  let sha256 ← subscript item "sha256"
  return { path := py.str path, sha256 := py.str sha256 }

def testCaseFrom (item : Json) : Except Exc TestCaseSnapshot := do
  let caseId ← subscript item "case_id"
  let nodeId ← subscript item "node_id"
  return { caseId := py.str caseId, nodeId := py.str nodeId }

def commandFrom (item : Json) : Except Exc ContractCommand := do
  let commandId ← subscript item "command_id"
  let argv ← itemsOrEmpty (getKey item "argv")
  let rawCommand ← subscript item "raw_command"
  let testEntityId ← subscript item "test_entity_id"
  let mapSeq ← py.int (← subscript item "map_seq")
  return {
    commandId    := py.str commandId
    argv         := argv.map py.str
    rawCommand   := py.str rawCommand
    testEntityId := py.str testEntityId
    mapSeq
  }

-- The arguments that `from_dict` passes to `freeze`.
def requirementsFrom (payload : Json.Dict) : Except Exc Requirements := do
  let testFiles ← (← itemsOrEmpty (payload.get "test_files")).mapM (testFileFrom py)
  let cases ← (← itemsOrEmpty (payload.get "cases")).mapM (testCaseFrom py)
  let commands ← (← itemsOrEmpty (payload.get "commands")).mapM (commandFrom py)
  let expected ← itemsOrEmpty (payload.get "expected_failure_case_ids")
  let mapSeq ← py.int ((payload.get "map_seq").getD (.num (-1)))
  return {
    testFiles, cases, commands, mapSeq
    expectedFailureCaseIds := expected.map py.str
    baselineHash           := py.strOrEmpty (payload.get "baseline_hash")
    boundaryFingerprint    := py.strOrEmpty (payload.get "boundary_fingerprint")
    imageVersion           := py.strOrEmpty (payload.get "image_version")
  }

def fromDict (payload : Json.Dict) : Except Exc FrozenContract := do
  Except.raiseIf (py.strOrEmpty (payload.get "schema") ≠ testContractSchema)
    (.valueError "test_contract_schema_invalid")
  let frozen ← freeze (← requirementsFrom py payload)
  Except.raiseIf (frozen.contractVersion sha256 ≠ py.strOrEmpty (payload.get "contract_version"))
    (.valueError "test_contract_version_mismatch")
  return frozen

end FromDict
end Container
