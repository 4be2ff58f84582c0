import Mathlib.Data.String.Basic
import BridleModel.Library.Assoc
import BridleModel.Library.Execution
import BridleModel.Library.Table

-- Where the generations of agent runtimes come from: the counter of the registry for maps, the database for
-- parents, and a constant for children.
namespace Runtime

section Rows

inductive Role
  | parent
  | child
  | map
deriving DecidableEq, Repr

-- `agent_runtimes` without its random primary key
structure RuntimeRow where
  runtimeType : Role
  projectId   : String
  sessionId   : Option String
  agentId     : String
  generation  : Nat
deriving DecidableEq, Repr

structure SessionRow where
  id        : String
  projectId : String
  active    : Bool
deriving DecidableEq, Repr

-- `child_spawn_facts` of the plan.db of a project
structure SpawnRow where
  projectId : String
  messageId : String
  nodeId    : String
deriving DecidableEq, Repr

inductive SpawnKey
  | message (projectId messageId : String)
  | node (projectId nodeId : String)
deriving DecidableEq

def SpawnRow.keys (row : SpawnRow) : List SpawnKey :=
  [.message row.projectId row.messageId, .node row.projectId row.nodeId]

def mapAgentId (projectId : String) : String :=
  "map-runtime-" ++ projectId

def sessionAgentId (sessionId : String) : String :=
  "session-" ++ sessionId

def childAgentId (spawnMessageId : String) : String :=
  "child-" ++ spawnMessageId

end Rows

-- What a process keeps in memory
structure Memory where
  generations : List (String × Nat)            -- `_generations` of the registry
  agents      : List String                    -- the projects of `_by_project`
  parents     : List ((String × String) × Nat) -- parent handles of a project and session, not yet destroyed
  turns       : List (String × Nat)            -- the turn of a session, with its `parent_generation`

def Memory.empty : Memory :=
  { generations := [], agents := [], parents := [], turns := [] }

structure World where
  runtimes : Table RuntimeRow fun row => [(row.agentId, row.generation)]
  sessions : Table SessionRow fun row => [row.id]
  spawns   : Table SpawnRow SpawnRow.keys
  memory   : Memory

-- A flag tells how a call ended that the operation makes.
inductive Action
  | createSession (sessionId projectId : String)
  | closeSession (sessionId : String) (destroyed closed : Bool)
  | beginTurn (sessionId : String)
  | ensureParent (sessionId : String) (ready : Bool)
  | endTurn (sessionId : String)
  | dispatchChild (sessionId nodeId uuid : String) (admitted : Bool)
  | wake (projectId : String) (running destroyed cleared ready : Bool)
  | retire (projectId : String)
  | restart
deriving DecidableEq

namespace World

-- `_parent_generation`
def parentGeneration (w : World) (projectId sessionId : String) : Nat :=
  match Assoc.get w.memory.parents (projectId, sessionId) with
  | some generation => generation
  | none            =>
    let rows := w.runtimes.rows.filter fun row =>
      row.runtimeType = .parent ∧ row.projectId = projectId ∧ row.sessionId = some sessionId
    (rows.map (·.generation)).max?.getD 0 + 1

def spawnOf (w : World) (projectId nodeId : String) : Option SpawnRow :=
  w.spawns.lookup (.node projectId nodeId)

-- `dispatch_child_agent` of the store: a node keeps its first spawn message.
def storeSpawn (w : World) (projectId nodeId uuid : String) : World × String :=
  match w.spawnOf projectId nodeId with
  | some spawn => (w, spawn.messageId)
  | none       =>
    let messageId := "spawn-" ++ uuid
    ({ w with spawns := (w.spawns.insert? { projectId, messageId, nodeId }).getD w.spawns }, messageId)

-- `wake` of the registry up to `create_runtime`
def wakeMap (w : World) (projectId : String) (running destroyed cleared : Bool) :
    World × Option RuntimeRow :=
  let current := projectId ∈ w.memory.agents
  if current ∧ running then
    (w, none)
  else
    let agents := w.memory.agents.filter (· ≠ projectId)
    let w := { w with memory := { w.memory with agents } }
    if current ∧ ¬destroyed then
      (w, none)
    else
      let generation := (Assoc.get w.memory.generations projectId).getD 0 + 1
      let generations := Assoc.set w.memory.generations projectId generation
      let w := { w with memory := { w.memory with generations } }
      if ¬cleared then
        (w, none)
      else
        (w, some { runtimeType := .map, projectId, sessionId := none, agentId := mapAgentId projectId, generation })

def withMemory (w : World) (f : Memory → Memory) : World :=
  { w with memory := f w.memory }

def beginTurn (sessionId : String) (generation : Nat) (m : Memory) : Memory :=
  { m with turns := Assoc.set m.turns sessionId generation }

def endTurn (sessionId : String) (m : Memory) : Memory :=
  { m with turns := m.turns.filter (·.fst ≠ sessionId) }

def dropParent (key : String × String) (m : Memory) : Memory :=
  { m with parents := m.parents.filter (·.fst ≠ key) }

def closeSession (w : World) (sessionId : String) : World :=
  let sessions := w.sessions.modify (·.id = sessionId) (fun row => { row with active := false })
    (Table.keep fun _ => rfl)
  { w with sessions }

-- What an action does up to `_create_record`, and the record that it asks for. Random ids are new.
def prepare (w : World) : Action → Option (World × Option RuntimeRow)
  | .createSession id projectId => do
    let sessions ← w.sessions.insert? { id, projectId, active := true }
    return ({ w with sessions }, none)
  | .closeSession sessionId destroyed closed => do
    let session ← w.sessions.lookup sessionId
    let w := if destroyed then w.withMemory (dropParent (session.projectId, sessionId)) else w
    return (if destroyed ∧ closed then w.closeSession sessionId else w, none)
  | .beginTurn sessionId => do
    let session ← w.sessions.lookup sessionId
    guard (session.active ∧ Assoc.get w.memory.turns sessionId = none)
    let generation := w.parentGeneration session.projectId sessionId
    return (w.withMemory (beginTurn sessionId generation), none)
  | .ensureParent sessionId _ => do
    let session ← w.sessions.lookup sessionId
    let generation ← Assoc.get w.memory.turns sessionId
    if (Assoc.get w.memory.parents (session.projectId, sessionId)).isSome then
      return (w, none)
    else
      return (w, some { runtimeType := .parent, projectId := session.projectId, sessionId := some sessionId,
                        agentId := sessionAgentId sessionId, generation })
  | .endTurn sessionId => some (w.withMemory (endTurn sessionId), none)
  | .dispatchChild sessionId nodeId uuid admitted => do
    let session ← w.sessions.lookup sessionId
    guard (∀ spawn ∈ w.spawns.rows, spawn.messageId ≠ "spawn-" ++ uuid)
    let (w, spawnMessageId) := w.storeSpawn session.projectId nodeId uuid
    if admitted then
      return (w, some { runtimeType := .child, projectId := session.projectId, sessionId := some sessionId,
                        agentId := childAgentId spawnMessageId, generation := 1 })
    else
      return (w, none)
  | .wake projectId running destroyed cleared _ => some (w.wakeMap projectId running destroyed cleared)
  | .retire projectId =>
    some (w.withMemory fun m => { m with agents := m.agents.filter (· ≠ projectId) }, none)
  | .restart => some (w.withMemory fun _ => .empty, none)

-- What follows once the record is written: a runtime that does not get ready is dropped again.
def created (row : RuntimeRow) : Action → Memory → Memory
  | .ensureParent sessionId ready, m =>
    if ready then { m with parents := Assoc.set m.parents (row.projectId, sessionId) row.generation }
    else endTurn sessionId m
  | .wake projectId _ _ _ ready, m => if ready then { m with agents := projectId :: m.agents } else m
  | _, m => m

-- `_create_record`
def createRecord (w : World) (row : RuntimeRow) : Option World :=
  (w.runtimes.insert? row).map fun runtimes => { w with runtimes }

def step (w : World) (a : Action) : Option World := do
  match ← w.prepare a with
  | (w, none)     => some w
  | (w, some row) =>
    match w.createRecord row with
    | none   => some w
    | some w => some (w.withMemory (created row a))

def init : World :=
  { runtimes := .empty, sessions := .empty, spawns := .empty, memory := .empty }

end World

def processes : TransitionSystem World Action where
  init w := w = .init
  step   := World.step

end Runtime
