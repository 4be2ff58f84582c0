import Mathlib.Algebra.Order.Ring.Rat
import Mathlib.Data.List.Sort
import Mathlib.Data.String.Basic
import BridleModel.Library.Except
import BridleModel.Library.Orders
import BridleModel.Plan.Database

open Except Plan

namespace ProjectMap

section Rows

inductive ScanStatus
  | notScanned
  | scanningStructure
  | structureReady
  | semanticScanning
  | needsArbitration
  | ready
  | failed
  | stale
deriving DecidableEq, Repr

def ScanStatus.value : ScanStatus → String
  | notScanned        => "not_scanned"
  | scanningStructure => "scanning_structure"
  | structureReady    => "structure_ready"
  | semanticScanning  => "semantic_scanning"
  | needsArbitration  => "needs_arbitration"
  | ready             => "ready"
  | failed            => "failed"
  | stale             => "stale"

inductive SemanticStatus
  | notStarted
  | pending
  | running
  | completed
  | failed
deriving DecidableEq, Repr

inductive AnnotationStatus
  | active
  | pending
  | rejected
  | stale
deriving DecidableEq, Repr

inductive ObjectionStatus
  | pending
  | resolved
deriving DecidableEq, Repr

inductive SpotStatus
  | «open»
  | routed
  | deferred
deriving DecidableEq, Repr

structure AnnotationRow where
  id       : String
  sourceId : String
  fileHash : String
  status   : AnnotationStatus
deriving DecidableEq, Repr

structure ObjectionRow where
  id           : String
  annotationId : Option String
  status       : ObjectionStatus
deriving DecidableEq, Repr

structure EntityRow where
  id   : String
  path : String
deriving DecidableEq, Repr

inductive EntityKey
  | id (id : String)     -- PRIMARY KEY
  | path (path : String) -- UNIQUE
deriving DecidableEq, Repr

structure SpotRow where
  id       : String
  filePath : Option String
  isStatic : Bool
  status   : SpotStatus
deriving DecidableEq, Repr

-- The tables and metadata of plan.db that decide on the state of the map, and the workspace it describes:
-- the digest of the content of each file, empty for a path that is no file.
structure Db where
  projectId       : String
  scanStatus      : ScanStatus
  readinessReason : String
  semanticStatus  : SemanticStatus
  runId           : String
  runSeq          : Nat
  interrupted     : Bool
  remaining       : Nat
  entities        : Table EntityRow fun row => [.id row.id, EntityKey.path row.path]
  annotations     : Table AnnotationRow fun row => [row.id]
  objections      : Table ObjectionRow fun row => [row.id]
  spots           : Table SpotRow fun row => [row.id]
  applied         : Table String fun messageId => [messageId]
  changes         : List ChangeRow
  fileHash        : String → String

end Rows

section Text

-- The LIKE of SQLite: `%` is any text, `_` any character, and ASCII letters match in either case.
def likeChars : List Char → List Char → Bool
  | [], text             => text.isEmpty
  | '%' :: pattern, text => text.tails.any (likeChars pattern)
  | '_' :: pattern, text => !text.isEmpty && likeChars pattern text.tail
  | c :: pattern, text   => text.head?.any (·.toLower = c.toLower) && likeChars pattern text.tail

def like (text pattern : String) : Bool :=
  likeChars pattern.toList text.toList

-- `path.split("::", 1)[0]`
def beforeColons : List Char → List Char
  | ':' :: ':' :: _ => []
  | c :: cs         => c :: beforeColons cs
  | []              => []

def filePart (path : String) : String :=
  .ofList (beforeColons path.toList)

end Text

namespace Db

-- `_initialize_metadata`
def empty (projectId : String) (fileHash : String → String) : Db where
  projectId       := projectId
  scanStatus      := .notScanned
  readinessReason := "not_scanned"
  semanticStatus  := .notStarted
  runId           := ""
  runSeq          := 0
  interrupted     := false
  remaining       := 0
  entities        := .empty
  annotations     := .empty
  objections      := .empty
  spots           := .empty
  applied         := .empty
  changes         := []
  fileHash        := fileHash

variable (db : Db)

def recordChange (entityType entityId operation : String) (payload : Json.Dict) : Db :=
  { db with changes := db.changes ++ [{ entityType, entityId, operation, payload }] }

-- `_set_map_status`
def setMapStatus (status : ScanStatus) (reason : String) : Db :=
  { db with
    scanStatus      := status
    readinessReason := if status = ScanStatus.ready then "" else reason
  }.recordChange "project_map" db.projectId status.value [("reason", .str reason)]

-- `_pending_objection_count`
def pendingObjectionCount : Nat :=
  db.objections.rowcount (·.status = .pending)

def openSpotCount : Nat :=
  db.spots.rowcount (·.status = .open)

def entity? (id : String) : Option EntityRow :=
  db.entities.lookup (.id id)

def insertAnnotation (row : AnnotationRow) : Except Error Db :=
  match db.annotations.insert? row with
  | none             => .error .integrity
  | some annotations => .ok { db with annotations }

-- `status` has the default 'pending'.
def insertObjection (id : String) (annotationId : Option String) : Except Error Db :=
  match db.objections.insert? { id, annotationId, status := .pending } with
  | none            => .error .integrity
  | some objections => .ok { db with objections }

def insertEntity (row : EntityRow) : Except Error Db :=
  match db.entities.insert? row with
  | none          => .error .integrity
  | some entities => .ok { db with entities }

def insertSpot (row : SpotRow) : Except Error Db :=
  match db.spots.insert? row with
  | none       => .error .integrity
  | some spots => .ok { db with spots }

end Db

section Annotations

structure Proposal where
  sourceId   : String
  fileHash   : String
  confidence : Rat
  risk       : String
  model      : String

-- `propose_annotation_decision`
def Proposal.autoAdopts (p : Proposal) : Bool :=
  9 / 10 ≤ p.confidence ∧ p.risk = "low"

def AnnotationStatus.value : AnnotationStatus → String
  | active   => "active"
  | pending  => "pending"
  | rejected => "rejected"
  | stale    => "stale"

-- `seedError` is what the check of the mapping seed raises, if there is one.
def Proposal.check (p : Proposal) (seedError : Option Error) (db : Db) : Except Error Unit := do
  raiseIf (¬(0 ≤ p.confidence ∧ p.confidence ≤ 1)) <|
    .validation "semantic_annotation" "Confidence must be between 0 and 1" []
  raiseIf (p.risk ∉ ["low", "medium", "high"]) <|
    .validation "semantic_annotation" "Unsupported risk level" [("risk", .str p.risk)]
  match db.entity? p.sourceId with
  | none        =>
    .error <| .validation "semantic_annotation" "Annotation source entity not found"
      [("source_id", .str p.sourceId)]
  | some entity =>
    raiseIf (p.fileHash = "" ∨ p.fileHash ≠ db.fileHash (filePart entity.path)) <|
      .validation "semantic_annotation" "File hash does not match current source content"
        [("source_id", .str p.sourceId)]
    seedError.elim (.ok ()) .error

def Db.recordAnnotation (db : Db) (row : AnnotationRow) (model : String) : Except Error Db := do
  let db ← db.insertAnnotation row
  return db.recordChange "semantic_annotation" row.id "record"
    [("source_id", .str row.sourceId), ("model", .str model), ("status", .str row.status.value)]

-- The ids of annotations and objections are drawn by `uuid4`.
def createMapObjection (objectionId objectionType : String) (annotationId : Option String) (db : Db) :
    Except Error Db := do
  let db ← db.insertObjection objectionId annotationId
  let db := db.recordChange "map_objection" objectionId "create" [("objection_type", .str objectionType)]
  return db.setMapStatus .needsArbitration "pending_arbitration"

def proposeSemanticAnnotation (annotationId objectionId : String) (seedError : Option Error) (p : Proposal)
    (db : Db) : Except Error Db := do
  p.check seedError db
  let status := if p.autoAdopts then AnnotationStatus.active else .pending
  let row := { id := annotationId, sourceId := p.sourceId, fileHash := p.fileHash, status }
  let db ← db.recordAnnotation row p.model
  if p.autoAdopts then
    return db
  else
    createMapObjection objectionId "semantic_annotation" (some annotationId) db

end Annotations

section Arbitration

-- The annotation that is decided with the objection
def ObjectionRow.annotation? (row : ObjectionRow) : Option String :=
  row.annotationId.filter (· ≠ "")

def annotationStale (annotationId : String) : Error :=
  .conflict "semantic_annotation" "Annotation is stale and cannot be accepted" "annotation_stale"
    [("annotation_id", .str annotationId)]

-- The check before an annotation is accepted
def assertAcceptable (db : Db) (annotationId : String) : Except Error Unit :=
  match db.annotations.lookup annotationId with
  | none     => .error (annotationStale annotationId)
  | some row =>
    match db.entity? row.sourceId with
    | none        => .error (annotationStale annotationId)
    | some entity => do
      let path := filePart entity.path
      raiseIf (row.status = .stale) (annotationStale annotationId)
      raiseIf (db.fileHash path = "" ∨ db.fileHash path ≠ row.fileHash) <|
        .conflict "semantic_annotation" "Source file hash no longer matches annotation" "annotation_stale"
          [("annotation_id", .str annotationId), ("file_path", .str path)]

namespace Db

variable (db : Db)

def objection (objectionId : String) : Except Error ObjectionRow :=
  match db.objections.lookup objectionId with
  | none     => .error <| .notFound "map_objection" "Resource not found" [("objection_id", .str objectionId)]
  | some row => .ok row

def closeObjection (objectionId decision actor : String) : Db :=
  { db with
    objections := db.objections.modify (·.id = objectionId) ({ · with status := .resolved })
      (Table.keep fun _ => rfl)
  }.recordChange "map_objection" objectionId "resolve" [("decision", .str decision), ("actor", .str actor)]

def settleAnnotation (decision annotationId : String) : Db :=
  let status := if decision = "accepted" then AnnotationStatus.active else .rejected
  { db with
    annotations := db.annotations.modify (·.id = annotationId) ({ · with status })
      (Table.keep fun _ => rfl)
  }.recordChange "semantic_annotation" annotationId "arbitrate"
    [("decision", .str decision), ("status", .str status.value)]

-- The status that follows from the objections and the semantic scan
def arbitrate : Db :=
  if db.pendingObjectionCount ≠ 0 then
    db.setMapStatus .needsArbitration "pending_arbitration"
  else if db.semanticStatus = .completed then
    db.setMapStatus .ready "arbitration_completed"
  else
    db.setMapStatus .semanticScanning "arbitration_completed_semantic_pending"

end Db

-- The checks of `resolve_objection`, with the row that they have read
def resolvable (objectionId decision : String) (db : Db) : Except Error ObjectionRow := do
  let row ← db.objection objectionId
  raiseIf (row.status ≠ .pending) <|
    .conflict "map_objection" "Objection already resolved" "objection_already_resolved"
      [("objection_id", .str objectionId), ("status", .str "resolved")]
  (if decision = "accepted" then row.annotation?.forM (assertAcceptable db) else return ())
  return row

def resolveObjection (objectionId decision actor : String) (db : Db) : Except Error Db := do
  let row ← resolvable objectionId decision db
  let closed := db.closeObjection objectionId decision actor
  let settled := row.annotation?.elim closed (closed.settleAnnotation decision)
  return settled.arbitrate

end Arbitration

section Refresh

-- `path = rel OR path LIKE rel::%`
def inFile (rel path : String) : Bool :=
  path = rel ∨ like path (rel ++ "::%")

-- `path = rel OR path LIKE rel/% OR path LIKE rel::%`
def underPath (rel path : String) : Bool :=
  path = rel ∨ like path (rel ++ "/%") ∨ like path (rel ++ "::%")

-- What the scanner, the indexers and the detector of blind spots return for the files that they parse. A
-- refresh also rebuilds the relations of other files, whose blind spots are detected again.
structure Index where
  entities     : List EntityRow
  spots        : List SpotRow
  rebuilt      : List String
  rebuiltSpots : List SpotRow

namespace Db

variable (db : Db)

-- `_collect_annotation_snapshots`
def annotationSnapshots (paths : List String) : List AnnotationRow :=
  paths.flatMap fun rel => db.annotations.rows.filter fun row =>
    (row.status = .active ∨ row.status = .pending) ∧ (db.entity? row.sourceId).any (inFile rel ·.path)

-- `_purge_path_artifacts`
def purgePath (rel : String) : Db :=
  { db with
    entities := db.entities.delete (underPath rel ·.path)
    spots    := db.spots.delete (·.filePath = some rel)
  }

-- `_insert_code_entities`: ON CONFLICT(id) DO UPDATE
def upsertEntity (row : EntityRow) : Except Error Db :=
  { db with entities := db.entities.delete (·.id = row.id) }.insertEntity row

-- `_upsert_blind_spots_for_files`
def upsertSpots (paths : List String) (rows : List SpotRow) : Except Error Db :=
  rows.foldlM insertSpot { db with
    spots := db.spots.delete fun row => row.isStatic ∧ row.filePath.any (· ∈ paths)
  }

-- `_set_annotation_stale`
def setAnnotationStale (annotationId : String) : Db :=
  let here := fun row : AnnotationRow =>
    decide (row.id = annotationId ∧ (row.status = .active ∨ row.status = .pending))
  if db.annotations.rowcount here = 0 then
    db
  else
    { db with
      annotations := db.annotations.modify here ({ · with status := .stale }) (Table.keep fun _ => rfl)
      objections  := db.objections.modify
        (fun row => row.annotationId = some annotationId ∧ row.status = ObjectionStatus.pending)
        ({ · with status := .resolved }) (Table.keep fun _ => rfl)
    }.recordChange "semantic_annotation" annotationId "stale" []

-- Whether the source of a snapshot is gone or has changed
def sourceChanged (snap : AnnotationRow) : Bool :=
  match db.entity? snap.sourceId with
  | none        => true
  | some entity =>
    let hash := db.fileHash (filePart entity.path)
    hash = "" ∨ hash ≠ snap.fileHash

-- A round of `_reconcile_annotations_after_refresh`; setting an annotation stale checks its status again.
def reconcileAnnotation (snap : AnnotationRow) : Db :=
  if db.sourceChanged snap then db.setAnnotationStale snap.id else db

def parsePaths (paths : List String) : List String :=
  paths.filter (db.fileHash · ≠ "")

-- The tables of the map after the refreshed paths are purged and indexed again
def reindex (paths : List String) (index : Index) : Except Error Db := do
  let purged := paths.foldl purgePath db
  let parsed := db.parsePaths paths
  let indexed ← (if parsed = [] then return purged else index.entities.foldlM upsertEntity purged)
  let rebuilt ← (if index.rebuilt = [] then return indexed
    else indexed.upsertSpots index.rebuilt index.rebuiltSpots)
  if parsed = [] then return rebuilt else rebuilt.upsertSpots parsed index.spots

end Db

-- `_refresh_code_paths_in_connection`, on normalized paths. `fileId` is `_entity_id` of a file.
def refreshCodePaths (fileId : String → String) (paths : List String) (index : Index) (db : Db) :
    Except Error Db := do
  let indexed ← db.reindex paths index
  let reconciled := (db.annotationSnapshots paths).foldl Db.reconcileAnnotation indexed
  return paths.foldl
    (fun db rel => db.recordChange "code_entity" (fileId rel) "refresh" [("path", .str rel)]) reconciled

def mapDeniedPrefixes : List String :=
  [".bridle/", ".git/", ".venv/", "node_modules/", "__pycache__/", ".pytest-tmp/", ".test-workspaces/",
    "dist/", "build/", "coverage/", "e2e-runs/", "e2e-generated/"]

-- `_map_path_allowed` of a path without a slash at its end
def mapPathAllowed (path : String) : Bool :=
  mapDeniedPrefixes.all fun denied => !(denied.toList.isPrefixOf (path.toList ++ ['/']))

-- `_normalize_relative_path`
def normalizeRelativePath (path : String) : Except Error String :=
  let slashed := path.toList.map fun c => if c = '\\' then '/' else c
  let parts := (slashed.splitOn '/').filter fun part => part ≠ [] ∧ part ≠ ['.']
  let normalized := String.ofList (['/'].intercalate parts)
  if parts = [] ∨ ['.', '.'] ∈ parts ∨ path.toList.head? = some '/' ∨ parts.head?.any (':' ∈ ·) ∨
      ¬mapPathAllowed normalized then
    .error <| .validation "code_map" "Changed path must stay inside the project" [("path", .str path)]
  else
    .ok normalized

-- `sorted({self._normalize_relative_path(path) for path in paths})`
def normalizePaths (paths : List String) : Except Error (List String) := do
  let normalized ← paths.mapM normalizeRelativePath
  return (normalized.dedup).insertionSort (· ≤ ·)

-- The messages that have no receipt yet
def Db.freshMessages (db : Db) (messages : List (String × List String)) : List (String × List String) :=
  messages.filter fun message => db.applied.lookup message.fst = none

def Db.insertReceipt (db : Db) (messageId : String) : Except Error Db :=
  match db.applied.insert? messageId with
  | none         => .error .integrity
  | some applied => .ok { db with applied }

-- The checked paths of the messages that have no receipt yet
def changedPaths (messages : List (String × List String)) (db : Db) : Except Error (List String) := do
  let messageIds := messages.map (·.fst)
  raiseIf ("" ∈ messageIds ∨ ¬messageIds.Nodup) <|
    .validation "project_map_message" "Invalid message batch" []
  normalizePaths <| (db.freshMessages messages).flatMap (·.snd)

-- The answer holds the refreshed paths.
def applyCodeChangedBatch (fileId : String → String) (messages : List (String × List String)) (index : Index)
    (db : Db) : Except Error (Db × List String) := do
  let normalized ← changedPaths messages db
  let refreshed ← (if normalized = [] then return db else refreshCodePaths fileId normalized index db)
  let received ← ((db.freshMessages messages).map (·.fst)).foldlM Db.insertReceipt refreshed
  return (received, normalized)

end Refresh

section Scan

-- `_replace_code_map` and `_replace_static_blind_spots`
def Db.replaceMap (db : Db) (index : Index) : Except Error Db := do
  let entities ← index.entities.foldlM (fun db row => db.insertEntity row) { db with entities := .empty }
  index.spots.foldlM Db.insertSpot { entities with spots := entities.spots.delete (·.isStatic) }

-- The transaction of a `rescan` that succeeds
def rescan (index : Index) (db : Db) : Except Error Db := do
  let replaced ← (db.setMapStatus .scanningStructure "deterministic_scan_started").replaceMap index
  return { replaced.setMapStatus .structureReady "deterministic_scan_completed" with
    semanticStatus := .pending
    runId          := ""
    interrupted    := false
    remaining      := 0
  }

-- The transaction of one that does not
def rescanFailed (error : String) (db : Db) : Db :=
  db.setMapStatus .failed error

end Scan

section Semantic

-- The first 50 open blind spots, by file path and id
def Db.nextSpots (db : Db) : List SpotRow :=
  let openSpots := db.spots.rows.filter (·.status = .open)
  (openSpots.insertionSort fun a b =>
    Option.lt (· < ·) a.filePath b.filePath ∨ (a.filePath = b.filePath ∧ a.id ≤ b.id)).take 50

def Db.markSpot (db : Db) (spotId : String) (status : SpotStatus) : Db :=
  { db with spots := db.spots.modify (·.id = spotId) ({ · with status }) (Table.keep fun _ => rfl) }

-- The entity that an annotation of a blind spot is attached to; the file itself comes before its symbols.
def Db.spotSource (db : Db) (spot : SpotRow) : Option EntityRow :=
  let filePath := spot.filePath.getD ""
  if filePath = "" then
    none
  else
    db.entities.rows.find? (·.path = filePath) <|> db.entities.rows.find? (inFile filePath ·.path)

-- `_route_blind_spot_to_review`
def Db.routeSpot (db : Db) (spot : SpotRow) (sourceId annotationId objectionId : String) : Except Error Db := do
  let fileHash := db.fileHash (spot.filePath.getD "")
  let db ← db.insertAnnotation { id := annotationId, sourceId, fileHash, status := .pending }
  let db ← db.insertObjection objectionId annotationId
  return (db.markSpot spot.id .routed).recordChange "semantic_annotation" annotationId "record"
      [("source_id", .str sourceId), ("model", .str "semantic_scan"), ("status", .str "pending")]
    |>.recordChange "map_objection" objectionId "create"
      [("objection_type", .str "semantic_annotation"), ("blind_spot_id", .str spot.id)]

-- A round of `SemanticScanService.run`; `draw` gives the ids of the annotation and of the objection.
def Db.reviewSpot (draw : String → String × String) (db : Db) (spot : SpotRow) : Except Error Db :=
  match db.spotSource spot with
  | none        => .ok (db.markSpot spot.id .deferred)
  | some entity => db.routeSpot spot entity.id (draw spot.id).fst (draw spot.id).snd

def runSemanticBatch (draw : String → String × String) (db : Db) : Except Error (Db × Nat) := do
  let db ← db.nextSpots.foldlM (Db.reviewSpot draw) db
  return (db, db.openSpotCount)

-- The first transaction of `_try_acquire_semantic_scan_lock`, with the run it claims
def claimRun (db : Db) : Option (Db × String) :=
  if (db.semanticStatus = .pending ∨ db.semanticStatus = .notStarted ∨ db.semanticStatus = .failed) ∧
      (db.scanStatus = .structureReady ∨ db.scanStatus = .semanticScanning) then
    let claimed := { db with semanticStatus := .running }
    if db.semanticStatus = .failed ∧ db.runId ≠ "" then
      some (claimed, db.runId)
    else if db.interrupted ∧ db.runId ≠ "" then
      some ({ claimed with interrupted := false }, db.runId)
    else
      let runId := toString (db.runSeq + 1)
      some ({ claimed with runSeq := db.runSeq + 1, runId }, runId)
  else
    none

-- The second transaction; the lock is given back if the scan status has moved on.
def startRun (db : Db) : Db × Bool :=
  if db.scanStatus = .structureReady ∨ db.scanStatus = .semanticScanning then
    ({ db with
      scanStatus      := .semanticScanning
      readinessReason := "semantic_scan_started"
    }.recordChange "project_map" db.projectId "semantic_scanning" [("reason", .str "semantic_scan_started")], true)
  else if db.semanticStatus = .running then
    ({ db with semanticStatus := .pending }, false)
  else
    (db, false)

-- `_commit_semantic_run_terminal`
def commitTerminal (runId : String) (semanticStatus : SemanticStatus) (mapStatus : ScanStatus) (reason : String)
    (db : Db) : Option Db :=
  if db.semanticStatus = .running ∧ db.runId = runId ∧ db.scanStatus = .semanticScanning then
    some <| { db with semanticStatus }.setMapStatus mapStatus reason
  else
    none

-- The run no longer owns the scan: only its own marker is taken back.
def releaseRun (runId : String) (db : Db) : Db :=
  if db.semanticStatus = .running ∧ db.runId = runId then { db with semanticStatus := .pending } else db

def markSemanticScanCompleted (runId : String) (db : Db) : Db :=
  let pending := db.pendingObjectionCount
  let status := if pending ≠ 0 then ScanStatus.needsArbitration else .ready
  let reason := if pending ≠ 0 then "pending_arbitration" else "semantic_scan_completed"
  if runId = "" then
    releaseRun runId db
  else
    (commitTerminal runId .completed status reason db).getD (releaseRun runId db)

-- The transaction of the exception handler of `run_semantic_scan`
def failRun (runId error : String) (db : Db) : Db :=
  let db := { db with remaining := db.openSpotCount }
  if runId = "" then
    db
  else
    (commitTerminal runId .failed .semanticScanning error db).getD (releaseRun runId db)

-- The transaction after an executor that has left blind spots open
def deferRun (runId : String) (db : Db) : Db :=
  if runId = "" then
    db
  else
    (commitTerminal runId .pending .semanticScanning "blind_spots_remaining" db).getD db

end Semantic
end ProjectMap
