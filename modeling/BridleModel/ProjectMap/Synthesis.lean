import Mathlib.Data.Prod.Lex
import BridleModel.CodeMap.Store
import BridleModel.Container.Workset
import BridleModel.Json.Ascii
import BridleModel.Json.Indent
import BridleModel.Library.Execution
import BridleModel.Library.SortBy
import BridleModel.Library.Updates
import BridleModel.ProjectMap.Interfaces

-- The synthesis of candidates from the structure of the code, and the mock files that it writes.
namespace ProjectMap

section Names

-- `_module_for_path`
def moduleForPath (rel : String) : String :=
  match (rel.toList.map fun c => if c = '\\' then '/' else c).splitOn '/' with
  | part :: _ :: _ => String.ofList part
  | _              => "."

-- `_stable_id`
def stableId (sha256 : String → String) (kind : String) (parts : List String) : String :=
  kind ++ "-" ++ String.ofList ((sha256 ("\n".intercalate parts)).toList.take 24)

def slugChar (c : Char) : Bool :=
  c.isAlphanum ∨ c = '_' ∨ c = '.' ∨ c = '-'

-- `re.sub(r"[^a-zA-Z0-9_.-]+", "-", value)`; `run` tells whether such a run has begun.
def replaceRuns : Bool → List Char → List Char
  | _, []           => []
  | run, c :: cs    =>
    if slugChar c then c :: replaceRuns false cs
    else if run then replaceRuns true cs
    else '-' :: replaceRuns true cs

-- `_safe_slug`
def safeSlug (value : String) : String :=
  let slug := replaceRuns false <| (Python.strip value).toList.map fun c => if c = '/' then '-' else c
  let cut := ((slug.dropWhile (· = '-')).rdropWhile (· = '-')).take 80
  if cut = [] then "root" else String.ofList cut

example : safeSlug " my module/1 " = "my-module-1" := by decide

end Names

section Modules

variable (sha256 fileHash : String → String)

-- `json.dumps` of a list with the default separators, from the texts of its items
def spacedList (items : List (List Char)) : List Char :=
  '[' :: ([',', ' '].intercalate items ++ [']'])

def textOf (s : String) : List Char :=
  (Json.Scalar.str s).text

-- The paths of the entities that are source files
def sourcePaths (entities : List CodeMap.EntityRow) : List String :=
  (entities.filter fun row => row.kind = "file" ∧ ¬"::".toList <:+: row.path.toList).map (·.path)

-- The candidate of a module with these files
def moduleCandidate (moduleId : String) (files : List String) : ModuleSketch where
  id              := stableId sha256 "modcand" [String.ofList <|
    "\x7b\"files\": ".toList ++ spacedList (files.map textOf) ++ ", \"module_id\": ".toList ++ textOf moduleId ++
      "\x7d".toList]
  moduleId        := moduleId
  fileFingerprint := sha256 <| String.ofList <| spacedList <|
    files.map fun path => spacedList [textOf path, textOf (fileHash path)]

-- `_module_candidates`
def moduleCandidates (entities : List CodeMap.EntityRow) : List ModuleSketch :=
  let paths := sourcePaths entities
  (paths.map moduleForPath).dedup.insertionSort (· ≤ ·) |>.map fun moduleId =>
    moduleCandidate sha256 fileHash moduleId <|
      (paths.filter (moduleForPath · = moduleId)).insertionSort (· ≤ ·)

end Modules

section Edges

structure EdgeRelation where
  sourceId   : String
  targetId   : String
  sourcePath : String
  targetPath : String
deriving DecidableEq, Repr

structure ModuleEdge where
  sourceCandidateId : String
  targetCandidateId : String
  sourceModule      : String
  targetModule      : String
  kind              : String
  relations         : List EdgeRelation
deriving DecidableEq, Repr

def ModuleEdge.key (e : ModuleEdge) : String × String × String :=
  (e.sourceCandidateId, e.targetCandidateId, e.kind)

-- The edge between the modules of a relation
def edgeOf (entities : List CodeMap.EntityRow) (candidates : List ModuleSketch) (r : CodeMap.RelationRow) :
    Option ModuleEdge := do
  guard (r.kind ≠ "contains")
  let src ← entities.find? (·.id = r.sourceId)
  let tgt ← entities.find? (·.id = r.targetId)
  let srcPath := filePart src.path
  let tgtPath := filePart tgt.path
  guard (moduleForPath srcPath ≠ moduleForPath tgtPath)
  let srcCandidate ← candidates.find? (·.moduleId = moduleForPath srcPath)
  let tgtCandidate ← candidates.find? (·.moduleId = moduleForPath tgtPath)
  return {
    sourceCandidateId := srcCandidate.id
    targetCandidateId := tgtCandidate.id
    sourceModule      := moduleForPath srcPath
    targetModule      := moduleForPath tgtPath
    kind              := r.kind
    relations         := [⟨r.sourceId, r.targetId, srcPath, tgtPath⟩]
  }

-- `grouped.setdefault(key, item)`, and the relation of the edge is appended to the item.
def addEdge (grouped : List ModuleEdge) (e : ModuleEdge) : List ModuleEdge :=
  if grouped.any (·.key = e.key) then
    grouped.map fun item => if item.key = e.key then { item with relations := item.relations ++ e.relations } else item
  else
    grouped ++ [e]

-- `_module_edges`
def moduleEdges (entities : List CodeMap.EntityRow) (relations : List CodeMap.RelationRow)
    (candidates : List ModuleSketch) : List ModuleEdge :=
  (relations.filterMap (edgeOf entities candidates)).foldl addEdge []

end Edges

section Interfaces

variable (sha256 : String → String) (e : ModuleEdge)

def ModuleEdge.symbol : String :=
  e.targetModule ++ "_boundary"

def ModuleEdge.candidateId : String :=
  stableId sha256 "ifacecand" [e.sourceModule, e.targetModule, e.symbol]

def mockDirectory : String :=
  ".bridle/semantic-map/mocks/"

def ModuleEdge.mockPath : String :=
  mockDirectory ++ safeSlug e.sourceModule ++ "__to__" ++ safeSlug e.targetModule ++ "__" ++ safeSlug e.symbol ++
    ".json"

def ModuleEdge.signature : Json.Dict := [
  ("kind", .str "module_import_boundary"),
  ("provider_module", .str e.targetModule),
  ("consumer_module", .str e.sourceModule),
  ("symbol", .str e.symbol)
]

def EdgeRelation.key (r : EdgeRelation) : String ×ₗ String ×ₗ String ×ₗ String :=
  toLex (r.sourcePath, toLex (r.targetPath, toLex (r.sourceId, r.targetId)))

def EdgeRelation.json (r : EdgeRelation) : Json := .obj [
  ("source_id", .str r.sourceId),
  ("target_id", .str r.targetId),
  ("source_path", .str r.sourcePath),
  ("target_path", .str r.targetPath)
]

def ModuleEdge.mockPayload : Json := .obj [
  ("interface_candidate_id", .str (e.candidateId sha256)),
  ("from_module", .str e.targetModule),
  ("to_module", .str e.sourceModule),
  ("symbol", .str e.symbol),
  ("signature", .obj e.signature),
  ("evidence", .obj [("relations", .arr ((SortBy.sortBy EdgeRelation.key e.relations).map EdgeRelation.json))]),
  ("status", .str "candidate")
]

-- The text that `_write_mock_artifact` writes
def ModuleEdge.mockText : String :=
  Json.dumpsIndent 0 (e.mockPayload sha256) ++ "\n"

def ModuleEdge.interfaceCandidate : InterfaceSketch where
  id              := e.candidateId sha256
  fromModule      := e.targetModule
  toModule        := e.sourceModule
  fromCandidateId := e.targetCandidateId
  toCandidateId   := e.sourceCandidateId
  symbol          := e.symbol
  signature       := e.signature
  mockFilePath    := e.mockPath
  mockHash        := sha256 (e.mockText sha256)
  confidence      := 33 / 50

def ModuleEdge.mockArtifact : ArtifactSketch where
  id                   := stableId sha256 "mock" [e.candidateId sha256, sha256 (e.mockText sha256)]
  interfaceCandidateId := e.candidateId sha256
  filePath             := e.mockPath
  fileHash             := sha256 (e.mockText sha256)

end Interfaces

-- The rows that a synthesis reads
structure Structure where
  entities  : List CodeMap.EntityRow
  relations : List CodeMap.RelationRow

section Synthesize

variable (sha256 fileHash : String → String) (s : Structure)

-- The module edges that become interface candidates, in the order in which their mocks are written.
def Structure.imports : List ModuleEdge :=
  (moduleEdges s.entities s.relations (moduleCandidates sha256 fileHash s.entities)).filter (·.kind = "imports")

-- What `synthesize` returns
def synthesize (runId : String) : Synthesis where
  runId      := runId
  modules    := moduleCandidates sha256 fileHash s.entities
  interfaces := (s.imports sha256 fileHash).map (·.interfaceCandidate sha256)
  artifacts  := (s.imports sha256 fileHash).map (·.mockArtifact sha256)

end Synthesize

-- The semantic map with the files of the project
structure MockWorld where
  map   : SemanticMap
  files : Container.Files

namespace MockWorld

variable (sha256 : String → String) (w : MockWorld)

-- `_write_mock_artifact` for these edges, one after the other
def writeMocks (edges : List ModuleEdge) (files : Container.Files) : Container.Files :=
  Updates.updates ModuleEdge.mockPath (fun e => some (e.mockText sha256)) edges files

-- `_file_hash` and `_file_content_hash`
def contentHash (path : String) : String :=
  ((w.files path).map sha256).getD ""

inductive Action
  | refresh (s : Structure) (runId reason : String)
  | rolledBack (s : Structure) (written : Nat) -- the refresh or the transaction around it fails
  | setModule (candidateId status actor now : String)
  | setInterface (candidateId status actor now : String)
  | edit (path : String) (content : Option String) -- by anybody else

def act : Action → MockWorld
  | .refresh s runId reason                =>
    let hash := w.contentHash sha256
    { map   := w.map.call (.refresh (synthesize sha256 hash s runId) reason)
      files := writeMocks sha256 (s.imports sha256 hash) w.files }
  | .rolledBack s written                  =>
    { w with files := writeMocks sha256 ((s.imports sha256 (w.contentHash sha256)).take written) w.files }
  | .setModule id status actor now         => { w with map := w.map.call (.setModule id status actor now) }
  | .setInterface id status actor now      =>
    { w with map := w.map.call (.setInterface (w.contentHash sha256) id status actor now) }
  | .edit path content                     => { w with files := Function.update w.files path content }

-- The project starts without candidates.
def mockSystem : TransitionSystem MockWorld Action where
  init w   := w.map = .empty
  step w a := some (w.act sha256 a)

end MockWorld
end ProjectMap
