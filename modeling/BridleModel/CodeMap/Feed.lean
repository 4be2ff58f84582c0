import Mathlib.Data.Prod.Lex
import BridleModel.CodeMap.Listing
import BridleModel.Library.SortBy

open ProjectMap Plan

-- The table of the code entities, the transactions that write it, and the change events that they record.
namespace CodeMap

-- An entity with its key columns, whatever else it has
class CodeEntity (E : Type) where
  id   : E → String
  path : E → String

instance : CodeEntity EntityRow where
  id   := EntityRow.id
  path := EntityRow.path

instance : CodeEntity ProjectMap.EntityRow where
  id   := ProjectMap.EntityRow.id
  path := ProjectMap.EntityRow.path

variable {E : Type} [CodeEntity E]

def CodeEntity.keys (e : E) : List ProjectMap.EntityKey :=
  [.id (CodeEntity.id e), .path (CodeEntity.path e)]

section Events

-- The event that a refresh records for each of its paths
def refreshEvent (fileId : String → String) (rel : String) : ChangeRow where
  entityType := "code_entity"
  entityId   := fileId rel
  operation  := "refresh"
  payload    := [("path", .str rel)]

-- `_set_map_status`
def statusEvent (projectId status reason : String) : ChangeRow where
  entityType := "project_map"
  entityId   := projectId
  operation  := status
  payload    := [("reason", .str reason)]

def isRefresh (row : ChangeRow) : Bool :=
  row.entityType = "code_entity" ∧ row.operation = "refresh"

-- All that is recorded elsewhere
abbrev OtherEvent :=
  { row : ChangeRow // isRefresh row = false }

end Events

-- The rows of `change_events` are numbered from one.
structure Feed (E : Type) [CodeEntity E] where
  entities : Table E CodeEntity.keys
  changes  : List ChangeRow

namespace Feed

def empty : Feed E where
  entities := .empty
  changes  := []

variable (feed : Feed E)

def record (events : List ChangeRow) : Feed E :=
  { feed with changes := feed.changes ++ events }

-- `_purge_path_artifacts`
def purgePath (rel : String) : Feed E :=
  { feed with entities := feed.entities.delete (underPath rel <| CodeEntity.path ·) }

-- `_replace_code_map`
def insertEntity (e : E) : Option (Feed E) :=
  (feed.entities.insert? e).map ({ feed with entities := · })

-- `_insert_code_entities`: ON CONFLICT(id) DO UPDATE
def upsertEntity (e : E) : Option (Feed E) :=
  { feed with entities := feed.entities.delete (CodeEntity.id · = CodeEntity.id e) }.insertEntity e

end Feed

-- A refresh carries what is scanned for those of its paths that are files, and the events of the annotations that it
-- sets stale.
inductive Transaction (E : Type)
  | refresh (relPaths : List String) (scanned : List E) (events : List OtherEvent)
  | rescan (scanned : List E) (events : List OtherEvent)
  | record (events : List OtherEvent)

section Commit

variable (fileId : String → String) (projectId : String)

def Feed.commit (feed : Feed E) : Transaction E → Option (Feed E)
  | .refresh relPaths scanned events => do
    let normalized ← (normalizePaths relPaths).toOption
    let indexed ← scanned.foldlM Feed.upsertEntity (normalized.foldl Feed.purgePath feed)
    return (indexed.record (events.map (·.val))).record (normalized.map (refreshEvent fileId))
  | .rescan scanned events           => do
    let started := feed.record [statusEvent projectId "scanning_structure" "deterministic_scan_started"]
    let replaced ← scanned.foldlM Feed.insertEntity { started with entities := .empty }
    return (replaced.record (events.map (·.val))).record
      [statusEvent projectId "structure_ready" "deterministic_scan_completed"]
  | .record events                   => some (feed.record (events.map (·.val)))

end Commit

section Queries

structure ChangeItem where
  changeSeq : Nat
  event     : ChangeRow

-- The events after a position
structure PlanMapChanges (afterSeq : Nat) where
  items    : List ChangeItem
  lastSeq  : Nat
  advances : items ≠ [] → afterSeq < lastSeq

def Feed.numbered (feed : Feed E) : List ChangeItem :=
  feed.changes.mapIdx fun i event => ⟨i + 1, event⟩

def Feed.itemsAfter (feed : Feed E) (afterSeq : Nat) (limit : Int) : List ChangeItem :=
  (feed.numbered.drop afterSeq).take (boundedLimit limit)

-- `changes`
def Feed.changesAfter (feed : Feed E) (afterSeq : Nat) (limit : Int) : PlanMapChanges afterSeq where
  items    := feed.itemsAfter afterSeq limit
  lastSeq  := ((feed.itemsAfter afterSeq limit).getLast?.map (·.changeSeq)).getD afterSeq
  advances := by
    intro hn
    rw [List.getLast?_eq_some_getLast hn, Option.map_some, Option.getD_some]
    have hm := List.mem_of_mem_take (List.getLast_mem hn)
    have ⟨i, _, hi⟩ := List.mem_iff_getElem.mp hm
    rw [← hi, List.getElem_drop]
    simp only [numbered, List.getElem_mapIdx]
    omega

-- The entities of `path_slice`
def Feed.pathSlice (feed : Feed E) (relPath : String) : Except Error (List E) := do
  let normalized ← normalizeRelativePath relPath
  return SortBy.sortBy (fun e => toLex (CodeEntity.path e, CodeEntity.id e)) <|
    feed.entities.rows.filter (inFile normalized <| CodeEntity.path ·)

end Queries
end CodeMap
