import Mathlib.Algebra.Group.Int.Defs
import Mathlib.Data.Finset.Sort
import Mathlib.Data.String.Basic
import BridleModel.Library.Assoc
import BridleModel.Library.DepthFirst
import BridleModel.Library.Except
import BridleModel.Library.Orders
import BridleModel.Plan.Database

open Except

namespace PlanGraph

section Rows

inductive Status
  | pending
  | ready
  | running
  | completed
  | failed
  | blocked
  | proposed
  | ratified
  | mapping
  | executing
  | verifying
  | drifted
deriving DecidableEq, Repr

def Status.value : Status → String
  | pending   => "pending"
  | ready     => "ready"
  | running   => "running"
  | completed => "completed"
  | failed    => "failed"
  | blocked   => "blocked"
  | proposed  => "proposed"
  | ratified  => "ratified"
  | mapping   => "mapping"
  | executing => "executing"
  | verifying => "verifying"
  | drifted   => "drifted"

structure NodeRow where
  id       : String
  parentId : Option String
  order    : Int
  status   : Status
  nodeType : String
  title    : String
  goal     : String
  payload  : Json
  archived : Bool
deriving Repr

structure EdgeRow where
  sourceId : String
  targetId : String
  kind     : String
deriving DecidableEq, Repr

inductive Error
  | api (error : Plan.ApiError)
  | integrity   -- sqlite3.IntegrityError
  | operational -- sqlite3.OperationalError
  | overflow    -- OverflowError
  | recursion   -- RecursionError
deriving Repr

namespace Error

def notFound (resource message : String) (details : Json.Dict) : Error :=
  .api { code := "not_found", message, resource, details }

def validation (resource message : String) (details : Json.Dict) : Error :=
  .api { code := "validation_error", message, resource, details }

def conflict (resource message code : String) (details : Json.Dict) : Error :=
  .api { code, message, resource, details }

end Error

-- No statement changes the id of a row.
theorem keep_id {p : NodeRow → Bool} {f : NodeRow → NodeRow} (h : ∀ row, (f row).id = row.id) :
    ∀ row, p row → [(f row).id] ⊆ [row.id] :=
  fun row _ => by rw [h row]; exact List.Subset.refl _

-- The tables of plan.db that hold the plan, and the status of the map.
structure Db where
  scanStatus      : Option String
  readinessReason : Option String
  nodes           : Table NodeRow fun row => [row.id]
  edges           : Table EdgeRow fun row => [row]
  changes         : List Plan.ChangeRow

end Rows

section Patch

structure PlanNodePatch where
  id        : String
  parentId  : Option String
  order     : Int
  nodeType  : String
  title     : String
  goal      : String
  dependsOn : List String
  extra     : Json.Dict

-- `none` is a field that is not set, `some none` one that is set to null.
structure NodeUpdate where
  id       : String
  parentId : Option (Option String)
  order    : Option (Option Int)
  nodeType : Option (Option String)
  title    : Option (Option String)
  goal     : Option (Option String)
  extra    : Json.Dict

structure DependencyReplace where
  nodeId    : String
  dependsOn : List String

structure PlanPatch where
  updateNodes         : List NodeUpdate
  addNodes            : List PlanNodePatch
  removeNodeIds       : List String
  replaceDependencies : List DependencyReplace

-- One turn of one of the loops of `_apply_patch`.
inductive Op
  | add (node : PlanNodePatch)
  | update (u : NodeUpdate)
  | replace (r : DependencyReplace)
  | remove (nodeId : String)

def Op.id : Op → String
  | add node      => node.id
  | update u      => u.id
  | replace r     => r.nodeId
  | remove nodeId => nodeId

namespace PlanPatch

def ops (p : PlanPatch) : List Op :=
  p.addNodes.map .add ++ p.updateNodes.map .update ++ p.replaceDependencies.map .replace ++
    p.removeNodeIds.map .remove

def directIds (p : PlanPatch) : List String :=
  p.updateNodes.map (·.id) ++ p.removeNodeIds ++ p.replaceDependencies.map (·.nodeId)

end PlanPatch

end Patch

namespace Db

def empty : Db where
  scanStatus      := none
  readinessReason := none
  nodes           := .empty
  edges           := .empty
  changes         := []

def recordChange (db : Db) (entityType entityId operation : String) (payload : Json.Dict) : Db :=
  { db with changes := db.changes ++ [{ entityType, entityId, operation, payload }] }

def node? (db : Db) (id : String) : Option NodeRow :=
  db.nodes.lookup id

-- SELECT ... WHERE id = ? AND archived = 0
def activeNode? (db : Db) (id : String) : Option NodeRow :=
  (db.node? id).filter (!·.archived)

def activeNodes (db : Db) : List NodeRow :=
  db.nodes.rows.filter (!·.archived)

def dependencies (db : Db) : List EdgeRow :=
  db.edges.rows.filter (·.kind = "depends_on")

end Db

section Guards

def assertMapReady (db : Db) : Except Error Unit :=
  let status := (db.scanStatus.filter (· ≠ "")).getD "not_scanned"
  let reason := (db.readinessReason.filter (· ≠ "")).getD status
  raiseIf (status ≠ "ready") <| .conflict "project_map" "Project map is not ready" "project_map_not_ready" [
    ("scan_status", .str status),
    ("can_chat", .bool false),
    ("can_edit_plan", .bool false),
    ("readiness_reason", .str reason)
  ]

-- `_running_ids`
def runningIds (db : Db) (ids : List String) : List String :=
  (db.activeNodes.filter fun row => row.status = .running ∧ row.id ∈ ids).map (·.id)

-- The running nodes that depend on a node or have it as their parent.
def runningDependents (db : Db) (id : String) : List String :=
  let running := db.activeNodes.filter (·.status = .running)
  let dependents := running.filter fun row =>
    db.dependencies.any fun edge => edge.sourceId = row.id ∧ edge.targetId = id
  (dependents ++ running.filter (·.parentId = some id)).map (·.id)

def assertUnaffected (affected : List String) : Except Error Unit :=
  raiseIf (affected ≠ []) <|
    .conflict "plan_node" "Running nodes and their execution semantics are immutable"
      "node_running_immutable" [("node_ids", .arr (affected.toFinset.sort.map .str))]

def assertPatchMutable (db : Db) (p : PlanPatch) : Except Error Unit :=
  assertUnaffected (runningIds db p.directIds ++ p.removeNodeIds.flatMap (runningDependents db))

end Guards

section Apply

-- `order` is bound to an SQL integer.
def sqlInteger (n : Int) : Except Error Int :=
  if -2 ^ 63 ≤ n ∧ n < 2 ^ 63 then .ok n else .error .overflow

def insertDependency (edges : Table EdgeRow fun row => [row]) (edge : EdgeRow) :
    Except Error (Table EdgeRow fun row => [row]) :=
  match edges.insert? edge with
  | none       => .error .integrity
  | some edges => .ok edges

def insertDependencies (db : Db) (sourceId : String) (targets : List String) : Except Error Db := do
  let edges ← (targets.map fun targetId => EdgeRow.mk sourceId targetId "depends_on").foldlM
    insertDependency db.edges
  return { db with edges }

-- `row` is what the SELECT of the turn has found.
def addNode (row : Option NodeRow) (node : PlanNodePatch) (db : Db) : Except Error Db := do
  raiseIf row.isSome <| .conflict "plan_node" "Node ID already exists" "node_already_exists"
    [("node_id", .str node.id)]
  let order ← sqlInteger node.order
  let nodes := db.nodes.insert? {
    id       := node.id
    parentId := node.parentId
    order    := order
    status   := .pending
    nodeType := node.nodeType
    title    := node.title
    goal     := node.goal
    payload  := .obj node.extra
    archived := false
  }
  match nodes with
  | none       => .error .integrity
  | some nodes =>
    let db ← insertDependencies { db with nodes } node.id node.dependsOn
    return db.recordChange "plan_node" node.id "add" []

namespace NodeUpdate

variable (jsonSet : Json → Json.Dict → Option Json)

def hasAssignments (u : NodeUpdate) : Bool :=
  u.parentId.isSome ∨ u.order.isSome ∨ u.nodeType.isSome ∨ u.title.isSome ∨ u.goal.isSome ∨ ¬u.extra.isEmpty

-- A NOT NULL column is set to null.
def setsNull (u : NodeUpdate) : Prop :=
  u.order = some none ∨ u.nodeType = some none ∨ u.title = some none ∨ u.goal = some none

instance (u : NodeUpdate) : Decidable u.setsNull :=
  inferInstanceAs (Decidable (_ ∨ _))

-- `resets` if the row that was read is completed, failed or blocked.
def set (u : NodeUpdate) (resets : Bool) (row : NodeRow) : NodeRow :=
  { row with
    parentId := u.parentId.getD row.parentId
    order    := u.order.join.getD row.order
    nodeType := u.nodeType.join.getD row.nodeType
    title    := u.title.join.getD row.title
    goal     := u.goal.join.getD row.goal
    payload  := if u.extra.isEmpty then row.payload else (jsonSet row.payload u.extra).getD row.payload
    status   := if resets then .pending else row.status }

end NodeUpdate

def Status.resets (status : Status) : Bool :=
  status = .completed ∨ status = .failed ∨ status = .blocked

variable (jsonSet : Json → Json.Dict → Option Json)

def updateNode (row : Option NodeRow) (u : NodeUpdate) (db : Db) : Except Error Db := do
  match row with
  | none     => .error (.notFound "plan_node" "Resource not found" [("node_id", .str u.id)])
  | some row =>
    if u.hasAssignments then
      let _ ← sqlInteger (u.order.join.getD 0)
      raiseIf (¬u.extra.isEmpty ∧ (db.node? u.id).any fun row => (jsonSet row.payload u.extra).isNone) .operational
      raiseIf u.setsNull .integrity
      let nodes := db.nodes.modify (·.id = u.id) (u.set jsonSet row.status.resets) (keep_id fun _ => rfl)
      return { db with nodes }.recordChange "plan_node" u.id "update" []
    else
      return db.recordChange "plan_node" u.id "update" []

def replaceDependencies (row : Option NodeRow) (r : DependencyReplace) (db : Db) : Except Error Db := do
  raiseIf row.isNone <| .notFound "plan_node" "Resource not found" [("node_id", .str r.nodeId)]
  let edges := db.edges.delete fun edge => edge.sourceId = r.nodeId ∧ edge.kind = "depends_on"
  let db ← insertDependencies { db with edges } r.nodeId r.dependsOn
  return db.recordChange "plan_edge" r.nodeId "replace_dependencies" []

def removeNode (nodeId : String) (db : Db) : Except Error Db := do
  let here := fun row : NodeRow => decide (row.id = nodeId ∧ ¬row.archived)
  raiseIf (db.nodes.rowcount here = 0) <| .notFound "plan_node" "Resource not found" [("node_id", .str nodeId)]
  let nodes := db.nodes.modify here ({ · with archived := true }) (keep_id fun _ => rfl)
  let edges := db.edges.delete fun edge => edge.sourceId = nodeId ∨ edge.targetId = nodeId
  return { db with nodes, edges }.recordChange "plan_node" nodeId "remove" []

namespace Op

-- The SELECT of the turn. Removing a node has none.
def read (db : Db) : Op → Option NodeRow
  | add node  => db.node? node.id
  | update u  => db.activeNode? u.id
  | replace r => db.activeNode? r.nodeId
  | remove _  => none

def apply (row : Option NodeRow) (db : Db) : Op → Except Error Db
  | add node      => addNode row node db
  | update u      => updateNode jsonSet row u db
  | replace r     => replaceDependencies row r db
  | remove nodeId => removeNode nodeId db

end Op

def PlanPatch.firstRead (p : PlanPatch) (db : Db) : Option NodeRow :=
  p.ops.head?.bind (·.read db)

def applyOps (ops : List Op) (db : Db) : Except Error Db :=
  ops.foldlM (fun db op => op.apply jsonSet (op.read db) db) db

-- The first SELECT comes before the first write, so that its row may be older than the transaction.
def applyPatch (first : Option NodeRow) (p : PlanPatch) (db : Db) : Except Error Db :=
  match p.ops with
  | []        => .ok db
  | op :: ops => op.apply jsonSet first db >>= applyOps jsonSet ops

end Apply

section Validate

def adjacent (adjacency : List (String × List String)) (id : String) : List String :=
  (Assoc.get adjacency id).getD []

-- No path is longer than the number of keys, so that `visit` needs no more fuel.
def assertAcyclic (adjacency : List (String × List String)) (errorCode : String) : Except Error Unit :=
  match DepthFirst.visitAll (adjacent adjacency) (adjacency.length + 1) [] [] (adjacency.map (·.fst)) with
  | .ok _              => .ok ()
  | .error .depth      => .error .recursion
  | .error (.cycle id) => .error <| .validation "plan_graph" "Plan graph contains a cycle"
      [("error_code", .str errorCode), ("node_id", .str id)]

def Db.activeIds (db : Db) : List String :=
  db.activeNodes.map (·.id)

def Db.adjacency (db : Db) : List (String × List String) :=
  db.activeIds.map fun id => (id, (db.dependencies.filter (·.sourceId = id)).map (·.targetId))

def Db.hierarchy (db : Db) : List (String × List String) :=
  db.activeNodes.filterMap fun row => row.parentId.map fun parent => (row.id, [parent])

def assertParents (db : Db) : Except Error Unit :=
  match db.activeNodes.find? (·.parentId.any (· ∉ db.activeIds)) with
  | none     => .ok ()
  | some row => .error <| .validation "plan_node" "Node parent does not exist"
      [("node_id", .str row.id), ("parent_id", Json.ofOption row.parentId)]

def assertEndpoints (db : Db) : Except Error Unit :=
  match db.dependencies.find? (fun edge => edge.sourceId ∉ db.activeIds ∨ edge.targetId ∉ db.activeIds) with
  | none      => .ok ()
  | some edge => .error <| .validation "plan_edge" "Dependency endpoint does not exist"
      [("source_id", .str edge.sourceId), ("target_id", .str edge.targetId)]

def validateGraph (db : Db) : Except Error Unit := do
  assertParents db
  assertEndpoints db
  assertAcyclic db.adjacency "dependency_cycle"
  assertAcyclic db.hierarchy "hierarchy_cycle"

end Validate

section Store

-- `with self._connect() as connection`: commit, or roll back.
def connect {α : Type} (db : Db) (body : Except Error (α × Db)) : Except Error α × Db :=
  match body with
  | .ok (a, db') => (.ok a, db')
  | .error e     => (.error e, db)

structure PatchResult where
  changedNodeIds : List String
  changeSeq      : Nat
deriving Repr

def PlanPatch.result (p : PlanPatch) (db : Db) : PatchResult where
  changedNodeIds := (p.ops.map (·.id)).toFinset.sort
  changeSeq      := db.changes.length

def patch (jsonSet : Json → Json.Dict → Option Json) (p : PlanPatch) (db : Db) :
    Except Error PatchResult × Db :=
  connect db do
    assertMapReady db
    assertPatchMutable db p
    let db' ← applyPatch jsonSet (p.firstRead db) p db
    validateGraph db'
    return (p.result db', db')

-- The condition of the UPDATE in `start_node`.
def runnable (db : Db) (row : NodeRow) : Bool :=
  !row.archived && decide (row.status = .pending ∨ row.status = .ready) &&
    db.dependencies.all fun edge =>
      edge.sourceId ≠ row.id ∨ db.nodes.rows.all fun dependency =>
        dependency.id ≠ edge.targetId ∨ dependency.status = .completed

def startNode (nodeId : String) (db : Db) : Except Error Unit × Db :=
  connect db <|
    let here := fun row : NodeRow => decide (row.id = nodeId) && runnable db row
    if db.nodes.rowcount here = 0 then
      match db.activeNode? nodeId with
      | none     => .error <| .notFound "plan_node" "Resource not found" [("node_id", .str nodeId)]
      | some row => .error <| .conflict "plan_node"
          "Node is not runnable from its current state or dependencies" "node_not_runnable"
          [("node_id", .str nodeId), ("status", .str row.status.value)]
    else
      let nodes := db.nodes.modify here ({ · with status := .running }) (keep_id fun _ => rfl)
      .ok ((), { db with nodes }.recordChange "plan_node" nodeId "status" [("status", .str "running")])

end Store
end PlanGraph
