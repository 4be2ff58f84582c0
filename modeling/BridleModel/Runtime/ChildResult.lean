import BridleModel.PlanGraph.Store
import BridleModel.Runtime.Generation

open Except

-- Dispatches of plan nodes to child runtimes, and the results that the children send back.
namespace Dispatch

open PlanGraph (Status Error)

section Plan

-- `child_spawn_facts`
structure SpawnFact where
  messageId  : String
  nodeId     : String
  targetRole : String
  status     : String
deriving Repr

inductive SpawnKey
  | message (messageId : String)
  | node (nodeId : String)
deriving DecidableEq

def SpawnFact.keys (fact : SpawnFact) : List SpawnKey :=
  [.message fact.messageId, .node fact.nodeId]

-- `child_result_receipts`
structure Receipt where
  messageId    : String
  nodeId       : String
  resultStatus : String
  result       : Json.Dict
deriving Repr

structure PlanDb extends PlanGraph.Db where
  spawns   : Table SpawnFact SpawnFact.keys
  receipts : Table Receipt fun row => [row.messageId]

-- The roles are node states, too.
def targetStatus (targetRole : String) : Option Status :=
  if targetRole = "mapping" then some .mapping
  else if targetRole = "executing" then some .executing
  else none

def resultMessageId (spawnMessageId : String) : String :=
  "child-result-" ++ spawnMessageId

namespace PlanDb

def spawnOf (db : PlanDb) (nodeId : String) : Option SpawnFact :=
  db.spawns.lookup (.node nodeId)

-- UPDATE plan_nodes SET status WHERE p
def setStatus (db : PlanDb) (p : PlanGraph.NodeRow → Bool) (status : Status) : PlanDb :=
  { db with nodes := db.nodes.modify p (fun row => { row with status }) (PlanGraph.keep_id fun _ => rfl) }

def recordChange (db : PlanDb) (entityId operation : String) (payload : Json.Dict) : PlanDb :=
  { db with toDb := db.toDb.recordChange "plan_node" entityId operation payload }

-- `dispatch_child_agent`: a node keeps its first spawn message (INSERT OR IGNORE).
def dispatchChildAgent (db : PlanDb) (nodeId targetRole uuid : String) : Except Error (PlanDb × String) := do
  let messageId := match db.spawnOf nodeId with
    | some fact => fact.messageId
    | none      => "spawn-" ++ uuid
  match targetStatus targetRole, db.activeNode? nodeId with
  | none, _             =>
    .error (.validation "plan_node" "Unsupported dispatch target role" [("target_role", .str targetRole)])
  | _, none             => .error (.validation "plan_node" "Node not found" [("node_id", .str nodeId)])
  | some status, some _ =>
    let db := db.setStatus (·.id = nodeId) status
    let spawns := (db.spawns.insert? { messageId, nodeId, targetRole, status := "pending" }).getD db.spawns
    let db := { db with spawns }.recordChange nodeId "dispatch" [("target_role", .str targetRole)]
    return (db, messageId)

def planStatus (status : String) : Status :=
  if status = "completed" then .completed else .failed

structure Applied where
  nodeId  : String
  status  : String
  applied : Bool
deriving DecidableEq, Repr

def applyChildResult (db : PlanDb) (messageId nodeId status : String) (result : Json.Dict) :
    Except Error (PlanDb × Applied) := do
  raiseIf (status ∉ ["completed", "failed", "cancelled"])
    (.validation "child_result" "Unsupported child result status" [("status", .str status)])
  match db.receipts.lookup messageId with
  | some existing => return (db, { nodeId := existing.nodeId, status := existing.resultStatus, applied := false })
  | none          =>
    raiseIf (¬(db.spawnOf nodeId).any fun fact => messageId = resultMessageId fact.messageId)
      (.validation "child_result" "Child result does not match a dispatched plan node"
        [("message_id", .str messageId), ("node_id", .str nodeId)])
    let db := db.setStatus (fun row => row.id = nodeId ∧ row.archived = false) (planStatus status)
    let spawns := db.spawns.modify (·.nodeId = nodeId) (fun fact => { fact with status })
      (Table.keep fun _ => rfl)
    match db.receipts.insert? { messageId, nodeId, resultStatus := status, result } with
    | none          => .error .integrity
    | some receipts =>
      let db := { db with spawns, receipts }.recordChange nodeId "child_result"
        [("message_id", .str messageId), ("result_status", .str status)]
      return (db, { nodeId, status, applied := true })

end PlanDb
end Plan

-- The payload of a `child-result` message
structure Payload where
  nodeId     : String
  status     : String
  targetRole : String
  result     : Json.Dict

structure Envelope where
  messageId : String
  payload   : Payload

-- A dispatch, in the order of the calls: whether its child runtime was created and still is, and how the
-- child ended
structure Call where
  nodeId         : String
  targetRole     : String
  spawnMessageId : String
  started        : Bool
  alive          : Bool
  outcome        : Option (String × Json.Dict)

def Call.payload (call : Call) (status : String) (result : Json.Dict) : Payload :=
  { nodeId := call.nodeId, status, targetRole := call.targetRole, result }

structure World where
  plan      : PlanDb
  runtimes  : Table (String × Nat) fun row => [row]             -- `agent_id` and `generation`
  delivered : Table String fun messageId => [messageId]         -- `runtime_child_result_receipts`
  mail      : Table Envelope fun envelope => [envelope.messageId]
  completed : List String                                       -- `_completed_child_results`
  calls     : List Call

inductive Action
  | dispatch (nodeId targetRole uuid : String) (admitted : Bool)
  | finish (spawnMessageId status : String) (result : Json.Dict)
  | deliver (spawnMessageId : String) (accepted claimed acked recorded : Bool)
  | fallBack (spawnMessageId : String)
  | recover (messageId : String)
  | restart

namespace World

-- The child that runs for a spawn message
def child? (w : World) (spawnMessageId : String) : Option Call :=
  w.calls.find? fun call => call.spawnMessageId = spawnMessageId ∧ call.started ∧ call.alive

-- `dispatch_child_agent` of the gateway: the child's agent has one generation only.
def dispatch (w : World) (nodeId targetRole uuid : String) (admitted : Bool) : World :=
  match w.plan.dispatchChildAgent nodeId targetRole uuid with
  | .error _                  => w
  | .ok (plan, spawnMessageId) =>
    let call := { nodeId, targetRole, spawnMessageId, started := false, alive := false, outcome := none }
    match if admitted then w.runtimes.insert? (Runtime.childAgentId spawnMessageId, 1) else none with
    | none          => { w with plan, calls := w.calls ++ [call] }
    | some runtimes =>
      { w with plan, runtimes, calls := w.calls ++ [{ call with started := true, alive := true }] }

def finish (w : World) (spawnMessageId status : String) (result : Json.Dict) : World :=
  { w with
    calls := w.calls.map fun call =>
      if call.spawnMessageId = spawnMessageId ∧ call.started ∧ call.alive ∧ call.outcome.isNone then
        { call with outcome := some (status, result) }
      else
        call }

def applied? (w : World) (messageId : String) (payload : Payload) : Option World :=
  match w.plan.applyChildResult messageId payload.nodeId payload.status payload.result with
  | .error _      => none
  | .ok (plan, _) => some { w with plan }

-- A result that is refused leaves everything as it is.
def apply (w : World) (messageId : String) (payload : Payload) : World :=
  (w.applied? messageId payload).getD w

-- `deliver_child_result`: the flags tell how far the mailbox lets the delivery come, and whether the process
-- lives to record it.
def deliver (w : World) (messageId : String) (payload : Payload) (accepted claimed acked recorded : Bool) :
    World :=
  if messageId ∈ w.completed ∨ messageId ∈ w.delivered.rows then
    w
  else if ¬accepted then
    w
  else
    -- A message that the mailbox has already is `existing`.
    let w := { w with mail := (w.mail.insert? { messageId, payload }).getD w.mail }
    if ¬claimed then
      w
    else
      match w.applied? messageId payload with
      | none   => w
      | some w =>
        if acked ∧ recorded then
          { w with
            delivered := (w.delivered.insert? messageId).getD w.delivered
            completed := messageId :: w.completed }
        else
          w

def step (w : World) : Action → Option World
  | .dispatch nodeId targetRole uuid admitted => do
    guard (∀ fact ∈ w.plan.spawns, fact.messageId ≠ "spawn-" ++ uuid)
    return w.dispatch nodeId targetRole uuid admitted
  | .finish spawnMessageId status result => do
    guard (status ∈ ["completed", "failed", "cancelled"])
    return w.finish spawnMessageId status result
  | .deliver spawnMessageId accepted claimed acked recorded => do
    let call ← w.child? spawnMessageId
    let (status, result) ← call.outcome
    return w.deliver (resultMessageId spawnMessageId) (call.payload status result) accepted claimed acked recorded
  | .fallBack spawnMessageId => do
    let call ← w.child? spawnMessageId
    let (status, result) ← call.outcome
    return w.apply (resultMessageId spawnMessageId) (call.payload status result)
  | .recover messageId => do
    let envelope ← w.mail.lookup messageId
    return w.apply messageId envelope.payload
  | .restart => some { w with
      completed := []
      calls     := w.calls.map fun call => { call with alive := false } }

-- Before any dispatch
structure Fresh (w : World) : Prop where
  spawns    : w.plan.spawns = .empty
  receipts  : w.plan.receipts = .empty
  runtimes  : w.runtimes = .empty
  delivered : w.delivered = .empty
  mail      : w.mail = .empty
  completed : w.completed = []
  calls     : w.calls = []

end World

def dispatches : TransitionSystem World Action where
  init := World.Fresh
  step := World.step

end Dispatch
