import Mathlib.Data.List.MinMax
import Mathlib.Data.List.Sort
import BridleModel.Json.Scan
import BridleModel.Library.Except
import BridleModel.Library.Execution
import BridleModel.Plan.Database

namespace Evidence

inductive Error
  | api (error : Plan.ApiError)
  | integrity -- sqlite3.IntegrityError
  | decode    -- json.JSONDecodeError
  | attribute -- AttributeError
deriving Repr

def Error.validation (message : String) : Error :=
  .api { code := "validation_error", message, resource := "verification_evidence", details := [] }

structure EvidenceRow where
  nodeId       : String
  evidenceSeq  : Int
  event        : String
  payload      : String
  previousHash : Option String
  evidenceHash : String
deriving DecidableEq, Repr

def EvidenceRow.keys (row : EvidenceRow) : List (String × Int) :=
  [(row.nodeId, row.evidenceSeq)]

-- The table `verification_evidence`.
abbrev EvidenceDb :=
  Table EvidenceRow EvidenceRow.keys

-- A file that an artifact reference leads to, by its digest.
inductive Artifact
  | outside -- of the project root
  | missing
  | file (digest : String)
deriving DecidableEq, Repr

-- `sha256` is the hexadecimal digest of a text in UTF-8, and `str` the text of a list or a dict.
structure Project where
  sha256   : String → String
  artifact : String → Artifact
  str      : Json → String

section Truth

-- The truth value of `payload.get(key)`.
def truthy : Option Json → Bool
  | none | some .null | some (.bool false) | some (.num 0) | some (.str "") => false
  | some (.arr []) | some (.obj [])                                        => false
  | _                                                                     => true

-- `str(value or "")`
def Project.textOrEmpty (p : Project) (value : Option Json) : String :=
  if truthy value then
    match value with
    | some (.str s)    => s
    | some (.bool _)   => "True"
    | some (.num n)    => toString n
    | some (.arr vs)   => p.str (.arr vs)
    | some (.obj d)    => p.str (.obj d)
    | some .null | none => ""
  else
    ""

end Truth

-- The text that `_evidence_hash` hashes.
def material (nodeId : String) (evidenceSeq : Int) (event : String) (payload : Json.Dict)
    (previousHash : Option String) : String :=
  Json.dumps <| .obj [
    ("node_id", .str nodeId),
    ("evidence_seq", .num evidenceSeq),
    ("event", .str event),
    ("payload", .obj payload),
    ("previous_hash", .ofOption previousHash)
  ]

namespace Project

variable (p : Project)

-- `_evidence_hash`
def evidenceHash (nodeId : String) (evidenceSeq : Int) (event : String) (payload : Json.Dict)
    (previousHash : Option String) : String :=
  p.sha256 <| material nodeId evidenceSeq event payload previousHash

-- `_validate_evidence_artifact`
def validateEvidenceArtifact (payload : Json.Dict) : Option String :=
  let artifactRef := p.textOrEmpty (payload.get "artifact_ref")
  let artifactDigest := p.textOrEmpty (payload.get "artifact_digest")
  if artifactRef = "" ∨ artifactDigest = "" then
    some "artifact_reference_missing"
  else
    match p.artifact artifactRef with
    | .outside     => some "artifact_reference_invalid"
    | .missing     => some "artifact_missing"
    | .file digest => if digest ≠ artifactDigest then some "artifact_digest_mismatch" else none

def allowed : List String := [
  "run_id", "node_id", "candidate_id", "submission_id", "contract_version", "test_code_hash",
  "candidate_code_hash", "required_command_ids", "map_seq", "boundary_fingerprint", "image_version",
  "exit_code", "duration_ms", "classification", "changed_paths", "artifact_ref", "artifact_digest"
]

-- `_sanitize_evidence_payload`
def sanitizeEvidencePayload (nodeId : String) (payload : Json.Dict) : Except Error Json.Dict :=
  let safePayload : Json.Dict := payload.filter (·.fst ∈ allowed)
  match safePayload.get "node_id" with
  | some (.str id) =>
    if id ≠ nodeId then
      .error (.validation "evidence node_id does not match the chain node")
    else if ¬truthy (safePayload.get "required_command_ids") then
      .error (.validation "required_command_ids must not be empty")
    else
      match p.validateEvidenceArtifact safePayload with
      | some message => .error (.validation message)
      | none         => .ok safePayload
  | _ => .error (.validation "evidence node_id does not match the chain node")

end Project

structure Record where
  nodeId       : String
  evidenceSeq  : Int
  event        : String
  payload      : Json
  previousHash : Option String
  evidenceHash : String
deriving Repr

namespace EvidenceDb

def nodeRows (db : EvidenceDb) (nodeId : String) : List EvidenceRow :=
  db.rows.filter (·.nodeId = nodeId)

-- ORDER BY evidence_seq DESC LIMIT 1
def previous (db : EvidenceDb) (nodeId : String) : Option EvidenceRow :=
  @List.argmax _ _ Int.instLinearOrder.toPreorder inferInstance (·.evidenceSeq) (db.nodeRows nodeId)

def bySeq (a b : EvidenceRow) : Prop :=
  a.evidenceSeq ≤ b.evidenceSeq

instance : DecidableRel bySeq :=
  fun a b => inferInstanceAs (Decidable (a.evidenceSeq ≤ b.evidenceSeq))

end EvidenceDb

def EvidenceRow.record (row : EvidenceRow) : Except Error Record :=
  match Json.loads row.payload with
  | none         => .error .decode
  | some payload => .ok { row with payload }

-- The row that `append_evidence` inserts after `previous`.
def EvidenceRow.next (p : Project) (nodeId event : String) (payload : Json.Dict)
    (previous : Option EvidenceRow) : EvidenceRow :=
  let evidenceSeq := match previous with
    | some row => row.evidenceSeq + 1
    | none     => 1
  let previousHash := previous.map (·.evidenceHash)
  {
    nodeId, evidenceSeq, event, previousHash
    payload      := (Json.obj payload).dumps
    evidenceHash := p.evidenceHash nodeId evidenceSeq event payload previousHash
  }

def appendEvidence (p : Project) (db : EvidenceDb) (nodeId event : String) (payload : Json.Dict) :
    Except Error (EvidenceDb × Record) :=
  match p.sanitizeEvidencePayload nodeId payload with
  | .error e        => .error e
  | .ok safePayload =>
    let row := EvidenceRow.next p nodeId event safePayload (db.previous nodeId)
    match db.insert? row with
    | none    => .error .integrity
    | some db => .ok (db, { row with payload := .obj safePayload })

def listEvidence (db : EvidenceDb) (nodeId : String) : Except Error (List Record) :=
  ((db.nodeRows nodeId).insertionSort EvidenceDb.bySeq).mapM (·.record)

section Validate

structure Break where
  evidenceSeq : Int
  errorCode   : String
  artifactRef : Option Json
deriving Repr

structure Publication where
  submissionId      : Option Json
  candidateCodeHash : Option Json
  changedPaths      : Json
  artifactRef       : String
deriving Repr

structure Validation where
  valid              : Bool
  nodeId             : String
  eventCount         : Nat
  latestEvidenceHash : Option String
  firstBreak         : Option Break
  publication        : Option Publication
deriving Repr

def evidenceBreak (record : Record) (payload : Json.Dict) (errorCode : String) : Break where
  evidenceSeq := record.evidenceSeq
  errorCode   := errorCode
  artifactRef := payload.get "artifact_ref"

variable (p : Project) (nodeId : String)

-- The checks of one record, in their order.
def recordError (previousHash : Option String) (record : Record) (payload : Json.Dict) :
    Option String :=
  if ¬truthy (payload.get "required_command_ids") then
    some "required_command_missing"
  else
    match p.validateEvidenceArtifact payload with
    | some errorCode => some errorCode
    | none           =>
      if record.previousHash ≠ previousHash then
        some "evidence_previous_hash_mismatch"
      else if record.evidenceHash ≠
          p.evidenceHash nodeId record.evidenceSeq record.event payload previousHash then
        some "evidence_hash_mismatch"
      else
        none

def published (publication : Option Publication) (event : String) (payload : Json.Dict) :
    Option Publication :=
  if event = "published" then
    some {
      submissionId      := payload.get "submission_id"
      candidateCodeHash := payload.get "candidate_code_hash"
      changedPaths      := (payload.get "changed_paths").getD (.arr [])
      artifactRef       := p.textOrEmpty (payload.get "artifact_ref")
    }
  else
    publication

-- The loop of `validate_evidence_chain`, with the first break and the last publication before it.
def validateRecords (previousHash : Option String) (publication : Option Publication) :
    List Record → Except Error (Option Break × Option Publication)
  | []                => .ok (none, publication)
  | record :: records =>
    match record.payload with
    | .obj payload =>
      match recordError p nodeId previousHash record payload with
      | some errorCode => .ok (evidenceBreak record payload errorCode, publication)
      | none           =>
        validateRecords (some record.evidenceHash) (published p publication record.event payload) records
    | _ => .error .attribute

def validateEvidenceChain (db : EvidenceDb) : Except Error Validation :=
  match listEvidence db nodeId with
  | .error e    => .error e
  | .ok records =>
    match validateRecords p nodeId none none records with
    | .error e                      => .error e
    | .ok (firstBreak, publication) => .ok {
        valid              := firstBreak.isNone
        nodeId             := nodeId
        eventCount         := records.length
        latestEvidenceHash := records.getLast?.map (·.evidenceHash)
        firstBreak, publication
      }

end Validate

-- A call of `append_evidence`.
structure Append where
  nodeId   : String
  event    : String
  payload  : Json.Dict
  distinct : (Json.obj payload).Distinct

-- A transaction that raises is rolled back.
def EvidenceDb.append (p : Project) (db : EvidenceDb) (call : Append) : EvidenceDb :=
  ((·.fst) <$> appendEvidence p db call.nodeId call.event call.payload).orElseKeep db

def system (p : Project) : TransitionSystem EvidenceDb Append where
  init db      := db = .empty
  step db call := some (db.append p call)

end Evidence
