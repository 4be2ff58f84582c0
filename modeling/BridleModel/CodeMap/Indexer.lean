import Mathlib.Data.List.DropRight
import Mathlib.Data.Prod.Lex
import BridleModel.CodeMap.Store
import BridleModel.Library.Assoc
import BridleModel.Library.SortBy

-- The entities that the walk over the workspace and the syntax trees of its source files produce.
namespace CodeMap

section Entities

inductive EntityKind
  | directory
  | file
  | test
  | function
  | «class»
  | method
deriving DecidableEq, Repr

def EntityKind.value : EntityKind → String
  | directory => "directory"
  | file      => "file"
  | test      => "test"
  | function  => "function"
  | «class»   => "class"
  | method    => "method"

-- What the ID and the path of an entity are derived from: the file or directory, and for a symbol its
-- qualified name.
@[ext]
structure Source where
  kind   : EntityKind
  rel    : String
  symbol : Option String
deriving DecidableEq, Repr

def Source.key (s : Source) : String :=
  match s.symbol with
  | none        => s.kind.value ++ ":" ++ s.rel
  | some symbol => s.kind.value ++ ":" ++ s.rel ++ ":" ++ symbol

def Source.path (s : Source) : String :=
  match s.symbol with
  | none        => s.rel
  | some symbol => s.rel ++ "::" ++ symbol

-- `_entity_id`; `digest` is the first 24 digits of the SHA-256 of a text.
def entityId (digest : String → String) (s : Source) : String :=
  "code-" ++ digest s.key

structure Scanned where
  source   : Source
  name     : String
  parentId : Option String
  payload  : Json.Dict
deriving Repr

def Scanned.row (digest : String → String) (e : Scanned) : EntityRow where
  id       := entityId digest e.source
  path     := e.source.path
  kind     := e.source.kind.value
  name     := e.name
  parentId := e.parentId
  payload  := e.payload

end Entities

section Syntax

structure Range where
  startLine : Nat
  endLine   : Nat
  startByte : Nat
  endByte   : Nat
deriving DecidableEq, Repr

-- A node with a field `name`, which may be missing.
structure Named where
  name  : Option String
  range : Range
deriving DecidableEq, Repr

-- A child of the body of a Python class, without its decorators.
inductive PyMember
  | function (node : Named) (overload : Bool)
  | other

inductive PyNode
  | function (node : Named) (overload : Bool)
  | «class» (node : Named) (overload : Bool) (body : Option (List PyMember))
  | imports (edges : List Relation)
  | other

inductive TsMember
  | method (node : Named)
  | other

-- A top-level node without its export statement; a declarator comes with whether its value is a function.
inductive TsNode
  | function (node : Named)
  | «class» (node : Named) (body : Option (List TsMember))
  | declaration (declarators : List (Named × Bool))
  | imports (edges : List Relation)
  | other

end Syntax

section Index

variable (digest : String → String) (rel : String)

def rangePayload (range : Range) (language qualifiedName : String) : Json.Dict :=
  [
    ("qualified_name", .str qualifiedName), ("language", .str language),
    ("range", .obj [
      ("start_line", .num range.startLine), ("end_line", .num range.endLine),
      ("start_byte", .num range.startByte), ("end_byte", .num range.endByte)
    ])
  ]

def fileId : String :=
  entityId digest { kind := .file, rel, symbol := none }

-- `_append_symbol`; nothing is appended for a node without a name.
def appendSymbol (node : Named) (kind : EntityKind) (parentId language : String)
    (parentQualifier : Option String) : Option Scanned :=
  node.name.map fun name =>
    let qualifiedName := match parentQualifier.filter (· ≠ "") with
      | some qualifier => qualifier ++ "." ++ name
      | none           => name
    {
      source   := { kind, rel, symbol := some qualifiedName }
      name     := name
      parentId := some parentId
      payload  := rangePayload node.range language qualifiedName
    }

def pyMethod (parent : Scanned) : PyMember → Option Scanned
  | .function node false => appendSymbol rel node .method (entityId digest parent.source) "python" parent.name
  | _                    => none

def pySymbols : PyNode → List Scanned
  | .function node false     => (appendSymbol rel node .function (fileId digest rel) "python" none).toList
  | .class node false body   =>
    match appendSymbol rel node .class (fileId digest rel) "python" none with
    | none        => []
    | some parent => parent :: (body.getD []).filterMap (pyMethod digest rel parent)
  | _                        => []

def pyEdges : PyNode → List Relation
  | .imports edges => edges
  | _              => []

def tsMethod (parent : Scanned) : TsMember → Option Scanned
  | .method node => appendSymbol rel node .method (entityId digest parent.source) "typescript" parent.name
  | .other       => none

def tsSymbols : TsNode → List Scanned
  | .function node         => (appendSymbol rel node .function (fileId digest rel) "typescript" none).toList
  | .class node body       =>
    match appendSymbol rel node .class (fileId digest rel) "typescript" none with
    | none        => []
    | some parent => parent :: (body.getD []).filterMap (tsMethod digest rel parent)
  | .declaration declarators =>
    declarators.filterMap fun (node, isFunction) =>
      if isFunction then appendSymbol rel node .function (fileId digest rel) "typescript" none else none
  | _                      => []

def tsEdges : TsNode → List Relation
  | .imports edges => edges
  | _              => []

-- `_index_python` and `_index_typescript`
def indexPython (nodes : List PyNode) : List Scanned × List Relation :=
  (nodes.flatMap (pySymbols digest rel), nodes.flatMap pyEdges)

def indexTypescript (nodes : List TsNode) : List Scanned × List Relation :=
  (nodes.flatMap (tsSymbols digest rel), nodes.flatMap tsEdges)

end Index

section Workspace

inductive NodeKind
  | directory
  | file
  | other
deriving DecidableEq, Repr

-- The tree below the project root in the order of `rglob`, and what the parsers make of its files: nothing for
-- a file that cannot be read or has a syntax error.
structure Workspace where
  nodes           : List (String × NodeKind)
  parsePython     : String → Option (List PyNode)
  parseTypescript : String → Option (List TsNode)
  distinct        : (nodes.map (·.fst)).Nodup

def components (rel : String) : List String :=
  (rel.toList.splitOn '/').map String.ofList

-- `PurePath.name` and `PurePath.parent` of a relative path
def pathName (rel : String) : String :=
  (components rel).getLastD ""

def joinPath (comps : List String) : String :=
  "/".intercalate comps

def parentPath (rel : String) : String :=
  joinPath (components rel).dropLast

-- `Path(rel).suffix`
def suffix (rel : String) : String :=
  let name := (pathName rel).toList
  let extension := (name.reverse.takeWhile (· ≠ '.')).reverse
  if extension.length + 1 < name.length ∧ extension ≠ [] then String.ofList ('.' :: extension) else ""

def directoryId (digest : String → String) (rel : String) : Option String :=
  if rel = "" then none else some (entityId digest { kind := .directory, rel, symbol := none })

def scanned (digest : String → String) (kind : EntityKind) (rel : String) : Scanned where
  source   := { kind, rel, symbol := none }
  name     := pathName rel
  parentId := directoryId digest (parentPath rel)
  payload  := []

def scanNode (digest : String → String) (node : String × NodeKind) : Option Scanned :=
  if ProjectMap.mapPathAllowed node.fst then
    match node.snd with
    | .directory => some (scanned digest .directory node.fst)
    | .file      => some (scanned digest .file node.fst)
    | .other     => none
  else
    none

def byPath (entities : List Scanned) : List Scanned :=
  SortBy.sortBy (fun e : Scanned => toLex (e.source.path, e.source.kind.value)) entities

def scanEntities (digest : String → String) (ws : Workspace) : List Scanned :=
  byPath (ws.nodes.filterMap (scanNode digest))

-- The ancestors of a path from the top, and the path itself
def candidatePaths (rel : String) : List String :=
  (components rel).inits.tail.map joinPath

def scanPaths (digest : String → String) (ws : Workspace) (paths : List String) : List Scanned :=
  let found := (paths.flatMap candidatePaths).filterMap fun candidate =>
    (ws.nodes.find? (·.fst = candidate)).bind (scanNode digest)
  byPath ((Assoc.dict (found.map fun e => (entityId digest e.source, e))).map (·.snd))

end Workspace

section Tests

def stripSlashes (text : List Char) : List Char :=
  (text.dropWhile (· = '/')).rdropWhile (· = '/')

-- `_test_dir_parent`
def testDirParent (declared : List Char) : List Char :=
  ((stripSlashes declared).reverse.dropWhile (· ≠ '/')).tail.reverse

def classifyIsTest (testDirs : List String) (rel : String) : Bool :=
  let declared := ((testDirs.map fun dir => stripSlashes dir.toList).filter (· ≠ [])).map fun dir =>
    dir.map fun c => if c = '\\' then '/' else c
  let parts := rel.toList.splitOn '/'
  declared.any (fun dir => rel.toList = dir ∨ dir ++ ['/'] <+: rel.toList) ∨
    (List.range (parts.length - 1)).any fun i =>
      parts[i]? = some "tests".toList ∧ ['/'].intercalate (parts.take i) ∉ declared.map testDirParent

-- `_apply_test_classification`
def applyTestClassification (testPaths : List String) (entities : List Scanned) : List Scanned :=
  entities.map fun e =>
    if e.source.kind = .file ∧ e.source.path ∈ testPaths then { e with source.kind := .test } else e

end Tests

section Run

variable (digest : String → String) (ws : Workspace) (testDirs : List String)

structure IndexResult where
  symbolEntities : List Scanned
  relations      : List Relation
  testPaths      : List String

def indexFile (rel : String) : Option (List Scanned × List Relation) :=
  if suffix rel = ".py" then (ws.parsePython rel).map (indexPython digest rel)
  else if suffix rel = ".ts" ∨ suffix rel = ".tsx" then (ws.parseTypescript rel).map (indexTypescript digest rel)
  else none

-- Of the edges with one source, target and kind the first is kept.
def dedupEdges (edges : List Relation) : List Relation :=
  edges.foldl (fun kept e =>
    if kept.any fun r => r.sourceId = e.sourceId ∧ r.targetId = e.targetId ∧ r.kind = e.kind then kept
    else kept ++ [e]) []

-- `TreeSitterIndexer.run`: `filePaths` are all files that are known, `paths` those to parse.
def runIndexer (filePaths paths : List String) : IndexResult :=
  let known := paths.filter (· ∈ filePaths)
  let sources := known.filter fun rel => ¬classifyIsTest testDirs rel ∧ (rel, .file) ∈ ws.nodes
  let indexed := sources.filterMap (indexFile digest ws)
  {
    symbolEntities := indexed.flatMap (·.fst)
    relations      := dedupEdges (indexed.flatMap (·.snd))
    testPaths      := known.filter (classifyIsTest testDirs)
  }

def filePathsOf (entities : List Scanned) : List String :=
  (entities.filter (·.source.kind = .file)).map (·.source.path)

-- The entities and relations that `rescan` builds from the workspace
def rescanEntities : List Scanned × List Relation :=
  let entities := scanEntities digest ws
  let filePaths := filePathsOf entities
  let index := runIndexer digest ws testDirs filePaths (filePaths.insertionSort (· ≤ ·))
  (applyTestClassification index.testPaths entities ++ index.symbolEntities, index.relations)

-- The entities that a refresh inserts for the paths that it parses
def refreshEntities (parsePaths : List String) : List Scanned :=
  let entities := scanPaths digest ws parsePaths
  let index := runIndexer digest ws testDirs (filePathsOf entities) (parsePaths.dedup.insertionSort (· ≤ ·))
  applyTestClassification index.testPaths entities ++ index.symbolEntities

end Run
end CodeMap
