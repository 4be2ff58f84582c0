import BridleModel.CodeMap.Artifacts
import BridleModel.CodeMap.Indexer
import BridleModel.CodeMap.Listing
import BridleModel.Library.Neighbourhood

open Except Plan

-- Queries for what lies around a node of the plan or an entity of the code map.
namespace CodeMap

-- The order in which a set or the rows of a query without an order come
structure Order where
  list : List String → List String
  perm : ∀ l, (list l).Perm l

-- A requested number, held between bounds
def clamp (lo hi n : Int) : Nat :=
  (max lo (min n hi)).toNat

section Plan

def maxSubgraphDepth : Int :=
  5

variable (order : Order) (db : Db)

def Db.neighbours (current : String) : List String :=
  let children := (db.nodes.rows.filter fun row => ¬row.archived ∧ row.parentId = some current).map (·.id)
  let parents := (db.nodes.rows.filter fun row => ¬row.archived ∧ row.id = current).filterMap (·.parentId)
  let targets := (db.edges.rows.filter (·.sourceId = current)).map (·.targetId)
  let sources := (db.edges.rows.filter (·.targetId = current)).map (·.sourceId)
  order.list (children ++ parents ++ targets ++ sources).dedup

structure PlanSubgraph where
  nodes     : List Node
  edges     : List PlanGraph.EdgeRow
  truncated : Bool

-- The loop of `ProjectPlanStore.subgraph`
def Db.subgraphSearch (nodeId : String) (depth limit : Int) : List String × List (String × Nat) :=
  Neighbourhood.search (db.neighbours order) (boundedLimit limit) (clamp 0 maxSubgraphDepth depth) [nodeId] [(nodeId, 0)]

-- `ProjectPlanStore.subgraph`
def Db.subgraph (nodeId : String) (depth limit : Int) : Except Error PlanSubgraph :=
  if ∃ row ∈ db.nodes.rows, row.id = nodeId ∧ ¬row.archived then
    let (seen, queue) := db.subgraphSearch order nodeId depth limit
    .ok {
      nodes     := (db.nodes.rows.filter fun row => ¬row.archived ∧ row.id ∈ seen).map db.rowToNode
      edges     := db.edges.rows.filter fun row => row.sourceId ∈ seen ∧ row.targetId ∈ seen
      truncated := boundedLimit limit ≤ seen.length ∧ queue ≠ []
    }
  else
    .error (.notFound "plan_node" "Resource not found" [("node_id", .str nodeId)])

end Plan

section Map

def mapQueryDepth : Int :=
  5

def mapQueryNodes : Int :=
  200

def mappingSeedMaxDepth : Int :=
  2

def mappingSeedMaxNodes : Int :=
  200

structure MapSubgraph where
  centerId  : String
  nodes     : List EntityRow
  edges     : List RelationRow
  truncated : Bool

namespace Artifacts

variable (order : Order) (digest : String → String) (db : Artifacts)

def neighbours (entityId : String) : List String :=
  let targets := (db.relations.rows.filter (·.sourceId = entityId)).map (·.targetId)
  let sources := (db.relations.rows.filter (·.targetId = entityId)).map (·.sourceId)
  order.list (targets ++ sources).dedup

-- The loop of `MapQueryService.subgraph`
def subgraphIds (entityId : String) (depth maxNodes : Int) : List String :=
  Neighbourhood.levels (db.neighbours order) order.list false (clamp 1 mapQueryNodes maxNodes) (clamp 0 mapQueryDepth depth)
    [entityId] [entityId]

-- `MapQueryService.subgraph`
def subgraph (entityId : String) (depth maxNodes : Int) (kinds : List String) : MapSubgraph :=
  let seen := db.subgraphIds order entityId depth maxNodes
  {
    centerId  := entityId
    nodes     := db.entities.rows.filter fun row => row.id ∈ seen ∧ (kinds = [] ∨ row.kind ∈ kinds)
    edges     := db.relations.rows.filter fun row => row.sourceId ∈ seen ∧ row.targetId ∈ seen
    truncated := clamp 1 mapQueryNodes maxNodes ≤ seen.length
  }

-- `require_blind_spot_seed`
def requireBlindSpotSeed (seedId : String) : Except Error BlindSpotRow :=
  match db.blindSpots.rows.find? fun row => row.id = seedId ∧ row.status = "open" with
  | some row => .ok row
  | none     =>
    .error (.validation "map_blind_spot" "Mapping queries require an open blind spot seed" [("seed_id", .str seedId)])

-- `file_entity_id`
def fileEntityId (relPath : String) : String :=
  entityId digest ⟨.file, relPath, none⟩

-- What the search starts with; `str` of a missing path is `None`.
def seedStart (seed : BlindSpotRow) : List String :=
  let filePath := seed.filePath.getD "None"
  (fileEntityId digest filePath ::
    (db.entities.rows.filter (ProjectMap.inFile filePath ·.path)).map (·.id)).dedup

-- `seed_allowed_entity_ids`
def seedAllowedEntityIds (seedId : String) (maxDepth maxNodes : Int) : Except Error (List String) := do
  let seed ← db.requireBlindSpotSeed seedId
  let start := db.seedStart digest seed
  return Neighbourhood.levels (db.neighbours order) order.list true maxNodes.toNat (clamp 0 mapQueryDepth maxDepth)
    start start

-- `assert_entity_in_seed_scope`
def assertEntityInSeedScope (seedId entityId : String) : Except Error Unit := do
  let allowed ← db.seedAllowedEntityIds order digest seedId mappingSeedMaxDepth mappingSeedMaxNodes
  raiseIf (entityId ∉ allowed) <| .validation "map_blind_spot" "Entity is outside mapping seed neighborhood"
    [("seed_id", .str seedId), ("entity_id", .str entityId)]

end Artifacts
end Map
end CodeMap
