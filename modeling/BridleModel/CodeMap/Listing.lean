import Mathlib.Data.Prod.Lex
import BridleModel.CodeMap.Store
import BridleModel.Json.Ascii
import BridleModel.Library.Base64

open Except Plan

namespace CodeMap

section Cursors

def maxPageLimit : Int :=
  200

-- `_bounded_limit`
def boundedLimit (limit : Int) : Nat :=
  (max 1 (min limit maxPageLimit)).toNat

def encodeCursor (values : List Json.Scalar) : String :=
  .ofList <| Base64.encode <| (Json.dumpsAscii values).toUTF8.toList.map UInt8.toNat

def invalidCursor (message : String) : Error :=
  .validation "cursor" message []

def decodeCursor : Option String → Except Error (List Json)
  | none        => .ok []
  | some cursor =>
    let bytes := (Base64.decode cursor.toList).map fun bytes => (bytes.map UInt8.ofNat).toByteArray
    match (bytes.bind String.fromUTF8?).bind Json.loads with
    | some (.arr values) => .ok values
    | _                  => .error (invalidCursor "Invalid cursor")

-- A Python `bool` is an `int`.
def asInteger : Json → Option Int
  | .num n  => some n
  | .bool b => some b.toInt
  | _       => none

def asString : Json → Option String
  | .str s => some s
  | _      => none

def decodeOrderCursor (cursor : Option String) : Except Error (Int × String) := do
  match ← decodeCursor cursor with
  | []          => .ok (-1, "")
  | [order, id] =>
    match asInteger order, asString id with
    | some order, some id => .ok (order, id)
    | _, _                => .error (invalidCursor "Invalid node cursor")
  | _           => .error (invalidCursor "Invalid node cursor")

def decodePathCursor (cursor : Option String) : Except Error (String × String) := do
  match ← decodeCursor cursor with
  | []         => .ok ("", "")
  | [path, id] =>
    match asString path, asString id with
    | some path, some id => .ok (path, id)
    | _, _               => .error (invalidCursor "Invalid code cursor")
  | _          => .error (invalidCursor "Invalid code cursor")

def decodeTextCursor (cursor : Option String) : Except Error String := do
  match ← decodeCursor cursor with
  | []   => .ok ""
  | [id] =>
    match asString id with
    | some id => .ok id
    | none    => .error (invalidCursor "Invalid search cursor")
  | _    => .error (invalidCursor "Invalid search cursor")

end Cursors

section Items

-- The fields of a row go before equal keys of its payload.
structure Node where
  payload   : Json
  id        : String
  parentId  : Option String
  order     : Int
  status    : PlanGraph.Status
  nodeType  : String
  title     : String
  goal      : String
  dependsOn : List String
deriving Repr

structure Entity where
  id       : String
  path     : String
  kind     : String
  name     : String
  parentId : Option String
  payload  : Json.Dict
deriving Repr

-- `_row_to_node`
def Db.rowToNode (db : Db) (row : NodeRow) : Node where
  payload   := row.payload
  id        := row.id
  parentId  := row.parentId
  order     := row.order
  status    := row.status
  nodeType  := row.nodeType
  title     := row.title
  goal      := row.goal
  dependsOn :=
    ((db.edges.rows.filter fun edge => edge.sourceId = row.id ∧ edge.kind = "depends_on").map
      (·.targetId)).mergeSort

-- `_code_entity_from_row`
def EntityRow.entity (row : EntityRow) : Entity where
  id       := row.id
  path     := row.path
  kind     := row.kind
  name     := row.name
  parentId := row.parentId
  payload  := row.payload

def RelationRow.relation (row : RelationRow) : Relation where
  sourceId := row.sourceId
  targetId := row.targetId
  kind     := row.kind
  payload  := row.payload

end Items

section Pages

-- `has_more` is left out of some pages.
structure Page (α : Type*) where
  items      : List α
  nextCursor : Option String
  hasMore    : Option Bool

-- The first `limit` of the rows found, and a cursor behind the last of them when more were found
def pageOf {α ρ : Type*} (found : List ρ) (limit : Nat) (item : ρ → α) (cursor : ρ → String) : Page α where
  items      := (found.take limit).map item
  nextCursor := if limit < found.length then (found.take limit).getLast?.map cursor else none
  hasMore    := none

def Page.withMore {α : Type*} (page : Page α) : Page α :=
  { page with hasMore := some page.nextCursor.isSome }

-- LIMIT ? with one row more than the page holds
def lookAhead {ρ : Type*} (rows : List ρ) (limit : Int) : List ρ :=
  rows.take (boundedLimit limit + 1)

-- ORDER BY node_order, id
def Node.position (node : Node) : Int ×ₗ String :=
  toLex (node.order, node.id)

-- ORDER BY path, id
def EntityRow.position (row : EntityRow) : String ×ₗ String :=
  toLex (row.path, row.id)

def children (parentId : Option String) (limit : Int) (cursor : Option String) (db : Db) :
    Except Error (Page Node) := do
  let (order, id) ← decodeOrderCursor cursor
  let behind := fun row : NodeRow =>
    cursor.isNone ∨ row.order > order ∨ (row.order = order ∧ row.id > id)
  let rows := db.nodes.rows.filter fun row => ¬row.archived ∧ row.parentId = parentId ∧ behind row
  let found := lookAhead (rows.insertionSort fun a b => (db.rowToNode a).position ≤ (db.rowToNode b).position) limit
  return pageOf found (boundedLimit limit) db.rowToNode fun last => encodeCursor [.num last.order, .str last.id]

-- LOWER of SQLite: ASCII letters only
def sqlLower (text : String) : String :=
  text.map Char.toLower

-- `lower` is `str.lower` of Python.
def NodeRow.found (lower : String → String) (query : String) (row : NodeRow) : Bool :=
  let pattern := "%" ++ lower query ++ "%"
  [row.id, row.title, row.goal, row.payloadText].any fun text => ProjectMap.like (sqlLower text) pattern

def search (lower : String → String) (query : String) (limit : Int) (cursor : Option String) (db : Db) :
    Except Error (Page Node) := do
  let id ← decodeTextCursor cursor
  let rows := db.nodes.rows.filter fun row => ¬row.archived ∧ row.id > id ∧ row.found lower query
  let found := lookAhead (rows.insertionSort (·.id ≤ ·.id)) limit
  return pageOf found (boundedLimit limit) db.rowToNode fun last => encodeCursor [.str last.id]

def listCodeEntities (limit : Int) (cursor : Option String) (db : Db) : Except Error (Page Entity) := do
  let (path, id) ← decodePathCursor cursor
  let rows := db.entities.rows.filter fun row => row.path > path ∨ (row.path = path ∧ row.id > id)
  let found := lookAhead (rows.insertionSort (·.position ≤ ·.position)) limit
  return (pageOf found (boundedLimit limit) EntityRow.entity fun last =>
    encodeCursor [.str last.path, .str last.id]).withMore

-- `int(cursor) if cursor and str(cursor).isdigit() else 0`
def rowCursor (cursor : Option String) : Nat :=
  match cursor.map String.toList with
  | some (c :: cs) => if (c :: cs).all Char.isDigit then Nat.ofDigitChars 10 (c :: cs) 0 else 0
  | _              => 0

def listCodeRelations (kinds : List String) (limit : Int) (cursor : Option String) (db : Db) :
    Except Error (Page Relation) :=
  let rows := db.relations.rows.filter fun row =>
    row.rowid > rowCursor cursor ∧ (kinds = [] ∨ row.kind ∈ kinds)
  let found := lookAhead (rows.insertionSort (·.rowid ≤ ·.rowid)) limit
  .ok (pageOf found (boundedLimit limit) RelationRow.relation fun last =>
    .ofList (Nat.toDigits 10 last.rowid)).withMore

def listSemanticAnnotations (limit : Int) (cursor : Option String) (db : Db) :
    Except Error (Page AnnotationRow) :=
  let rows := db.annotations.rows.filter fun row => row.id > cursor.getD ""
  let found := lookAhead (rows.insertionSort (·.id ≤ ·.id)) limit
  .ok (pageOf found (boundedLimit limit) id (·.id)).withMore

end Pages

section Clients

variable {α ρ : Type*}

-- The pages of a client that follows `next_cursor` from the cursor to the last page. `ρ` is what the server
-- meets at a request, and there is no result when a request is refused or missing.
def traverse (fetchPage : Option String → ρ → Except Error (Page α)) :
    Option String → List ρ → Option (List α)
  | _, []                 => none
  | cursor, r :: requests =>
    match fetchPage cursor r with
    | .error _ => none
    | .ok page =>
      match page.nextCursor with
      | none   => if requests = [] then some page.items else none
      | cursor => (traverse fetchPage cursor requests).map (page.items ++ ·)

structure PagedResult (α : Type*) where
  items     : List α
  truncated : Bool

-- `Boolean(text)`
def truthy (text : Option String) : Bool :=
  text.any (· ≠ "")

-- The loop of `fetchAllPages`, with the items collected so far
def fetchAllPages (fetchPage : Option String → ρ → Except Error (Page α)) (cap : Int) :
    List α → Option String → List ρ → Option (PagedResult α)
  | items, cursor, requests =>
    if items.length < cap then
      match requests with
      | []            => none
      | r :: requests =>
        match fetchPage cursor r with
        | .error _     => none
        | .ok response =>
          let items := items ++ response.items
          let hasMore := response.hasMore.getD (truthy response.nextCursor)
          if !hasMore ∨ !truthy response.nextCursor then some { items, truncated := false }
          else if items.length ≥ cap then some { items, truncated := true }
          else fetchAllPages fetchPage cap items response.nextCursor requests
    else
      some { items, truncated := false }

end Clients

end CodeMap
