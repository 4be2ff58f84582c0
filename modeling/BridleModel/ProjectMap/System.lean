import BridleModel.Library.Processes
import BridleModel.ProjectMap.Store

open Except Plan

namespace ProjectMap

-- The calls that are one transaction each, and changes of the workspace. A call carries the ids it draws
-- and what the scanners return for it.
inductive Call
  | rescan (index : Index)
  | rescanFailed (reason : String)
  | propose (annotationId objectionId : String) (seedError : Option Error) (p : Proposal)
  | createObjection (objectionId objectionType : String) (annotationId : Option String)
  | resolve (objectionId decision actor : String)
  | refresh (paths : List String) (index : Index)
  | applyBatch (messages : List (String × List String)) (index : Index)
  | write (path hash : String)

def refreshPaths (fileId : String → String) (paths : List String) (index : Index) (db : Db) :
    Except Error Db := do
  refreshCodePaths fileId (← normalizePaths paths) index db

-- `none` is a rescan that cannot store what it has scanned: it fails.
def Db.call (fileId : String → String) (db : Db) : Call → Option Db
  | .rescan index                => (rescan index db).toOption
  | .rescanFailed reason         => some (rescanFailed reason db)
  | .propose a o seedError p     => some (( proposeSemanticAnnotation a o seedError p db).orElseKeep db)
  | .createObjection o type a    => some ((createMapObjection o type a db).orElseKeep db)
  | .resolve o decision actor    => some ((resolveObjection o decision actor db).orElseKeep db)
  | .refresh paths index         => some ((refreshPaths fileId paths index db).orElseKeep db)
  | .applyBatch messages index   =>
    some (((·.fst) <$> applyCodeChangedBatch fileId messages index db).orElseKeep db)
  | .write path hash             => some { db with fileHash := Function.update db.fileHash path hash }

-- The paths that a call refreshes, with what is scanned for them
def Call.refreshes (db : Db) : Call → Option (List String × Index)
  | .refresh paths index       => (normalizePaths paths).toOption.map (·, index)
  | .applyBatch messages index => (changedPaths messages db).toOption.map (·, index)
  | _                          => none

-- Where a call of `run_semantic_scan` stands between its transactions, with `run_id` once it has one. The
-- calls with an executor are marked by `executor`.
inductive Position
  | idle
  | semanticStatus (executor : Bool)
  | acquire (executor : Bool)
  | start (executor : Bool) (runId : String)
  | batch (runId : String)
  | batched (runId : String) (remaining : Nat)
  | executing (runId : String)
  | executed (runId : String)
  | defer (runId : String)
  | complete (runId : String)
  | leave (runId : String)
  | failing (runId reason : String)

inductive Input
  | call (executor : Bool)
  | next
  | batch (draw : String → String × String)
  | raise (reason : String)

-- `run_id` inside the `try`
def Position.runId? : Position → Option String
  | .batch runId | .batched runId _ | .executing runId | .executed runId | .defer runId | .complete runId
  | .leave runId => some runId
  | _ => none

-- Where an exception leads: out of the call, or into the handler.
def Position.raised (p : Position) (reason : String) : Position :=
  p.runId?.elim .idle (.failing · reason)

-- An executor works on the store by calls of its own, which may be batches.
def advance (db : Db) : Position → Input → Option (Db × Position)
  | .idle, .call executor             =>
    some (db, if db.scanStatus = .structureReady ∨ db.scanStatus = .semanticScanning
      then .semanticStatus executor else .idle)
  | .semanticStatus executor, .next   =>
    some (db, if db.semanticStatus = .completed ∨ db.semanticStatus = .running then .idle else .acquire executor)
  | .acquire executor, .next          =>
    match claimRun db with
    | none             => some (db, .idle)
    | some (db, runId) => some (db, .start executor runId)
  | .start executor runId, .next      =>
    match startRun db with
    | (db, false) => some (db, .idle)
    | (db, true)  => some (db, if executor then .executing runId else .batch runId)
  | .batch runId, .batch draw         =>
    match runSemanticBatch draw db with
    | .error _           => none
    | .ok (db, remaining) => some (db, .batched runId remaining)
  | .batched runId remaining, .next   =>
    some ({ db with remaining }, if remaining = 0 then .complete runId else .batch runId)
  | .executing runId, .batch draw     =>
    match runSemanticBatch draw db with
    | .error _    => none
    | .ok (db, _) => some (db, .executing runId)
  | .executing runId, .next           => some (db, .executed runId)
  | .executed runId, .next            => some (db, if db.remaining = 0 then .complete runId else .defer runId)
  | .defer runId, .next               => some (deferRun runId db, .leave runId)
  | .complete runId, .next            => some (markSemanticScanCompleted runId db, .leave runId)
  | .leave _, .next                   => some (db, .idle)
  | .failing runId reason, .next       => some (failRun runId reason db, .idle)
  | .idle, .raise _                   => none
  | p, .raise reason                   => some (db, p.raised reason)
  | _, _                              => none

-- Any number of stores scan one project; the other calls come from anywhere.
def stores (fileId : String → String) : Processes Db Position Call Input where
  init db     := ∃ projectId fileHash, db = .empty projectId fileHash
  start       := .idle
  environment := Db.call fileId
  advance     := advance

abbrev Label :=
  Processes.Label Call Input

-- Whether a rescan ends with the step, and how
def rescan? : Label → Option Bool
  | .environment (.rescan _)       => some true
  | .environment (.rescanFailed _) => some false
  | _                              => none

def lastRescan? (labels : List Label) : Option Bool :=
  labels.reverse.findSome? rescan?

end ProjectMap
