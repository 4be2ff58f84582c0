import BridleModel.CodeMap.Indexer
import BridleModel.Library.Transaction

-- A rescan and the refreshes of a workspace, with the entities that its files produce.
namespace CodeMap

section Rows

-- The row as the map's own tables see it
def EntityRow.entry (row : EntityRow) : ProjectMap.EntityRow where
  id   := row.id
  path := row.path

structure SymbolRow where
  moniker     : String
  defEntityId : Option String
  kind        : Option String
  displayName : Option String
deriving Repr

structure OccurrenceRow where
  filePath : String
  moniker  : String
  role     : String
  range    : Json.Dict
deriving Repr

-- The tables that a rescan replaces
structure Content where
  map         : ProjectMap.Db
  relations   : Table RelationRow RelationRow.keys
  symbols     : Table SymbolRow fun row => [row.moniker]
  occurrences : List OccurrenceRow

-- What the SCIP indexer returns
structure Scip where
  symbols     : List SymbolRow
  occurrences : List OccurrenceRow
  relations   : List Relation

end Rows

section Rescan

variable (digest : String → String) (ws : Workspace) (testDirs : List String)

def rescanRows : List EntityRow :=
  (rescanEntities digest ws testDirs).fst.map (·.row digest)

def refreshRows (parsePaths : List String) : List EntityRow :=
  (refreshEntities digest ws testDirs parsePaths).map (·.row digest)

def rescanIndex (spots : List ProjectMap.SpotRow) : ProjectMap.Index where
  entities     := (rescanRows digest ws testDirs).map EntityRow.entry
  spots        := spots
  rebuilt      := []
  rebuiltSpots := []

-- `_replace_code_map`, `_replace_scip_data` and `_replace_static_blind_spots`
def replaceEntities (rows : List EntityRow) (relations : List Relation) (c : Content) : Option Content :=
  ((rows.map EntityRow.entry).foldlM (fun (db : ProjectMap.Db) row => db.insertEntity row)
      { c.map with entities := .empty }).toOption.map fun map =>
    { c with
      map
      relations := (rows.filterMap EntityRow.contains ++ relations).foldl insertRelation .empty
    }

def replaceScip (scip : Scip) (c : Content) : Option Content :=
  some { c with
    symbols     := scip.symbols.foldl Table.replace .empty
    occurrences := scip.occurrences
  }

def replaceSpots (spots : List ProjectMap.SpotRow) (c : Content) : Option Content :=
  (spots.foldlM ProjectMap.Db.insertSpot { c.map with spots := c.map.spots.delete (·.isStatic) }).toOption.map
    fun map => { c with map }

-- The statements of the transaction. `blocked` says that the co-change statistics, the metrics or the refresh
-- of the candidates raise; they write to other tables.
def rescanStatements (spots : List ProjectMap.SpotRow) (scip : Scip) (blocked : Bool) :
    List (Content → Option Content) := [
  fun c => some { c with map := c.map.setMapStatus .scanningStructure "deterministic_scan_started" },
  replaceEntities (rescanRows digest ws testDirs) ((rescanEntities digest ws testDirs).snd ++ scip.relations),
  replaceScip scip,
  replaceSpots spots,
  fun c => if blocked then none else some c,
  fun c => some { c with
    map := { c.map.setMapStatus .structureReady "deterministic_scan_completed" with
      semanticStatus := .pending
      runId          := ""
      interrupted    := false
      remaining      := 0
    }
  }
]

-- `rescan`, with whether it has completed; `error` names the exception that its handler records.
def rescan (spots : List ProjectMap.SpotRow) (scip : Scip) (blocked : Bool) (error : String) (c : Content) :
    Content × Bool :=
  let stmts := Connection.body (rescanStatements digest ws testDirs spots scip blocked)
  match (Connection.opened c).run (stmts ++ [.commit]) with
  | some connection => (connection.durable, true)
  | none            =>
    let kept := ((Connection.opened c).interrupted stmts stmts.length).rollback.durable
    ({ kept with map := ProjectMap.rescanFailed error kept.map }, false)

end Rescan

section Definitions

variable (digest : String → String) (ws : Workspace) (testDirs : List String)

def scannedPaths (entities : List Scanned) : List String :=
  entities.map (·.source.path)

-- The definitions that the indexer finds in the files of the workspace
def rescanDefinitions : List Source :=
  let filePaths := filePathsOf (scanEntities digest ws)
  (runIndexer digest ws testDirs filePaths (filePaths.insertionSort (· ≤ ·))).symbolEntities.map (·.source)

-- and in the files of a refresh
def refreshDefinitions (parsePaths : List String) : List Source :=
  let filePaths := filePathsOf (scanPaths digest ws parsePaths)
  (runIndexer digest ws testDirs filePaths (parsePaths.dedup.insertionSort (· ≤ ·))).symbolEntities.map (·.source)

-- What a refresh inserts for the paths among `paths` that are files
def refreshIndex (db : ProjectMap.Db) (paths : List String) : ProjectMap.Index where
  entities     := (refreshRows digest ws testDirs (db.parsePaths paths)).map EntityRow.entry
  spots        := []
  rebuilt      := []
  rebuiltSpots := []

-- The insertion of a refresh, after the purge of its paths
def refreshed (db : ProjectMap.Db) (paths : List String) : Except Plan.Error ProjectMap.Db :=
  ((refreshRows digest ws testDirs (db.parsePaths paths)).map EntityRow.entry).foldlM
    (fun (db : ProjectMap.Db) row => db.upsertEntity row) (paths.foldl ProjectMap.Db.purgePath db)

end Definitions
end CodeMap
