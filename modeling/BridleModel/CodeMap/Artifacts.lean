import Mathlib.Data.Prod.Lex
import BridleModel.CodeMap.Scan
import BridleModel.Library.SortBy
import BridleModel.Library.Sqlite

-- What the code map stores about a path, and how a refresh of the path finds it.
namespace CodeMap

section Rows

structure BlindSpotRow where
  id       : String
  kind     : String
  filePath : Option String
  range    : Option Json
  detail   : Json.Dict
  source   : Option String
  status   : String
deriving Repr

structure Artifacts where
  entities    : Table EntityRow fun row => [.id row.id, EntityKey.path row.path]
  relations   : Table RelationRow RelationRow.keys
  occurrences : List OccurrenceRow
  symbols     : Table SymbolRow fun row => [row.moniker]
  blindSpots  : Table BlindSpotRow fun row => [row.id]

-- The symbols and occurrences of one pass of the indexer
structure ScipIndexResult where
  symbols     : List SymbolRow
  occurrences : List OccurrenceRow

end Rows

namespace Artifacts

variable (db : Artifacts)

-- `_entity_ids_for_paths`
def entityIdsForPaths (relPaths : List String) : List String :=
  relPaths.flatMap fun rel => (db.entities.rows.filter (ProjectMap.underPath rel ·.path)).map (·.id)

def touching (ids : List String) (row : RelationRow) : Bool :=
  row.sourceId ∈ ids ∨ row.targetId ∈ ids

-- The file that a relation makes stale at one of its ends, if it is not refreshed itself
def rebuildPath? (staleIds normalized : List String) (entityId : String) : Option String :=
  if entityId ∈ staleIds then none
  else
    match db.entities.lookup (.id entityId) with
    | none     => none
    | some row =>
      let filePath := ProjectMap.filePart row.path
      if filePath ∈ normalized then none else some filePath

-- `_collect_relation_rebuild_paths`
def collectRelationRebuildPaths (staleIds normalized : List String) : List String :=
  ((db.relations.rows.filter (touching staleIds)).flatMap fun row =>
    [row.sourceId, row.targetId].filterMap (db.rebuildPath? staleIds normalized)).dedup

-- `_purge_path_artifacts`
def purgePathArtifacts (rel : String) : Artifacts where
  entities    := db.entities.delete (ProjectMap.underPath rel ·.path)
  relations   := db.relations.delete (touching (db.entityIdsForPaths [rel]))
  occurrences := db.occurrences.filter (·.filePath ≠ rel)
  symbols     := db.symbols.delete (Sqlite.globText ·.moniker (rel ++ "::*"))
  blindSpots  := db.blindSpots.delete (·.filePath = some rel)

-- `_delete_outgoing_non_contains_relations_for_paths`
def deleteOutgoing (relPaths : List String) : Artifacts :=
  { db with
    relations := db.relations.delete fun row =>
      row.kind ≠ "contains" ∧ row.sourceId ∈ db.entityIdsForPaths relPaths
  }

-- `_upsert_scip_data`
def upsertScipData (scip : ScipIndexResult) : Artifacts :=
  { db with
    symbols     := scip.symbols.foldl Table.replace db.symbols
    occurrences := db.occurrences ++ scip.occurrences
  }

-- `_replace_scip_for_paths`
def replaceScipForPaths (relPaths : List String) (scip : ScipIndexResult) : Artifacts :=
  let deleted := relPaths.foldl (fun db rel => { db with
    occurrences := db.occurrences.filter (·.filePath ≠ rel)
    symbols     := db.symbols.delete (Sqlite.globText ·.moniker (rel ++ "::*"))
  }) db
  deleted.upsertScipData scip

end Artifacts

structure PathSlice where
  path       : String
  entities   : List EntityRow
  relations  : List RelationRow
  blindSpots : List BlindSpotRow

-- `path_slice`
def Artifacts.pathSlice (db : Artifacts) (relPath : String) : Except Plan.Error PathSlice := do
  let normalized ← ProjectMap.normalizeRelativePath relPath
  let entities := SortBy.sortBy (fun row : EntityRow => toLex (row.path, row.id)) <|
    db.entities.rows.filter (ProjectMap.inFile normalized ·.path)
  return {
    path       := normalized
    entities
    relations  := db.relations.rows.filter (touching (entities.map (·.id)))
    blindSpots := db.blindSpots.rows.filter (·.filePath = some normalized)
  }

end CodeMap
