import BridleModel.Library.Processes
import BridleModel.PlanGraph.Store

open Except

namespace PlanGraph

section Calls

inductive Call
  | patch (p : PlanPatch)
  | start (nodeId : String)
  | finish (nodeId : String) (completed : Bool)
  | scan (status reason : Option String)

-- A running node ends. Nothing else happens to it here.
def Db.finish (db : Db) (nodeId : String) (completed : Bool) : Db :=
  let here := fun row : NodeRow => decide (row.id = nodeId ∧ ¬row.archived ∧ row.status = .running)
  let status := if completed then Status.completed else Status.failed
  { db with nodes := db.nodes.modify here ({ · with status }) (keep_id fun _ => rfl) }

variable (jsonSet : Json → Json.Dict → Option Json)

def Db.call (db : Db) : Call → Db
  | .patch p                 => (patch jsonSet p db).snd
  | .start nodeId            => (startNode nodeId db).snd
  | .finish nodeId completed => db.finish nodeId completed
  | .scan status reason      => { db with scanStatus := status, readinessReason := reason }

-- One call after the other, from an empty plan.
def calls : TransitionSystem Db Call where
  init db      := db.nodes = .empty ∧ db.edges = .empty
  step db call := some (db.call jsonSet call)

end Calls

section Connections

-- Where a call of `patch` stands. Each position up to `write` reads by one statement.
inductive Position
  | idle
  | direct (p : PlanPatch)
  | dependents (p : PlanPatch) (affected removed : List String)
  | first (p : PlanPatch)
  | write (p : PlanPatch) (first : Option NodeRow)

variable (jsonSet : Json → Json.Dict → Option Json)

-- The write transaction: no other connection writes until it ends.
def commitPatch (first : Option NodeRow) (p : PlanPatch) (db : Db) : Except Error Db := do
  let db' ← applyPatch jsonSet first p db
  validateGraph db'
  return db'

def advance (db : Db) : Position → Option PlanPatch → Option (Db × Position)
  | .idle, some p =>
    match assertMapReady db with
    | .ok _    => some (db, .direct p)
    | .error _ => some (db, .idle)
  | .direct p, none                             => some (db, .dependents p (runningIds db p.directIds) p.removeNodeIds)
  | .dependents p affected (id :: removed), none =>
    some (db, .dependents p (affected ++ runningDependents db id) removed)
  | .dependents p affected [], none              =>
    match assertUnaffected affected with
    | .ok _    => some (db, .first p)
    | .error _ => some (db, .idle)
  | .first p, none       => some (db, .write p (p.firstRead db))
  | .write p first, none => some ((commitPatch jsonSet first p db).orElseKeep db, .idle)
  | _, _                 => none

-- Any number of connections patch the plan, others start nodes.
def connections : Processes Db Position String (Option PlanPatch) where
  init db               := ∀ id row, db.node? id = some row → row.status = .running → row.archived = false
  start                 := .idle
  environment db nodeId := some (startNode nodeId db).snd
  advance               := advance jsonSet

end Connections
end PlanGraph
