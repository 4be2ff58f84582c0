import BridleModel.Library.Locks
import BridleModel.Outbox.Batch

-- The path locks of `commit_many` in one process
namespace Outbox

-- Where the call is. The locks that it has acquired come last one first. `escaped` is an exception that no `finally`
-- has caught, `left none` one that has gone through it.
inductive LockPosition
  | start
  | acquiring (items : List Item) (acquired rest : List String)
  | backing (acquired : List String)
  | reading (items : List Item) (acquired : List String) (snapshots : List (String × Option Bytes))
    (rest : List String)
  | guarded (acquired : List String) (position : BatchPosition)
  | leaving (acquired : List String) (result : Option BatchResult)
  | escaped (acquired : List String)
  | left (result : Option BatchResult)

-- The process with the thread that makes the call
structure LockWorld where
  project  : Project
  locks    : Locks Nat String
  position : LockPosition

-- `own` is a step of the call itself; `raise` is an exception that leaves its `try` statement, also out of the
-- handler. Meanwhile the other threads take locks, release theirs, and change the project.
inductive LockAction
  | own (e : Event)
  | raise
  | acquire (thread : Nat) (key : String)
  | release (thread : Nat) (key : String)
  | change (project : Project)

namespace LockPosition

def ended : LockPosition → Bool
  | escaped _ | left _ => true
  | _                  => false

-- `acquired`
def acquired : LockPosition → List String
  | acquiring _ acquired _ | backing acquired | reading _ acquired _ _ | guarded acquired _ | leaving acquired _
  | escaped acquired => acquired
  | start | left _   => []

end LockPosition

namespace BatchCall

variable (sha256 : Bytes → String) (capacity : Nat) (call : BatchCall) (me : Nat)

-- A step of `commit_many` around its locks
def ownLockStep (w : LockWorld) : LockPosition → Event → Option LockWorld
  | .start, .proceed                                  =>
    match validate [] call.changes with
    | .error result => some { w with position := .left (some result) }
    | .ok items     => some { w with position := .acquiring items [] (affectedPaths items) }
  | .acquiring items acquired (path :: rest), .proceed =>
    -- `path_lock` normalizes the path once more.
    match normalizePath path with
    | .error _ => some { w with position := .escaped acquired }
    | .ok key  =>
      match w.locks.acquire me key with
      | none       => some { w with position := .backing acquired }
      | some locks => some { w with locks, position := .acquiring items (key :: acquired) rest }
  | .acquiring items acquired [], .proceed             =>
    some { w with position := .reading items acquired [] (affectedPaths items) }
  | .backing (key :: acquired), .proceed               =>
    (w.locks.release me key).map fun locks => { w with locks, position := .backing acquired }
  | .backing [], .proceed                              => some { w with position := .left (some .busy) }
  | .reading items acquired snapshots (path :: rest), .proceed =>
    some { w with position := .reading items acquired (snapshots ++ [(path, w.project.files path)]) rest }
  -- `_snapshot` raises before the `try` statement.
  | .reading _ acquired _ (_ :: _), .fault             => some { w with position := .escaped acquired }
  | .reading items acquired snapshots [], .proceed     =>
    some { w with position := .guarded acquired (.working snapshots (.reserving [] items)) }
  | .guarded acquired (.finished result), .proceed     => some { w with position := .leaving acquired (some result) }
  | .guarded acquired position, e                      =>
    (call.step sha256 capacity w.project position e).map fun (project, position) =>
      { w with project, position := .guarded acquired position }
  | .leaving (key :: acquired) result, .proceed        =>
    (w.locks.release me key).map fun locks => { w with locks, position := .leaving acquired result }
  | .leaving [] result, .proceed                       => some { w with position := .left result }
  | _, _                                               => none

def lockStep (w : LockWorld) : LockAction → Option LockWorld
  | .own e              => call.ownLockStep sha256 capacity me w w.position e
  | .raise              =>
    match w.position with
    | .guarded acquired _ => some { w with position := .leaving acquired none }
    | _                   => none
  | .acquire thread key =>
    if thread = me then none else (w.locks.acquire thread key).map fun locks => { w with locks }
  | .release thread key =>
    if thread = me then none else (w.locks.release thread key).map fun locks => { w with locks }
  | .change project     => some { w with project }

def lockSystem : TransitionSystem LockWorld LockAction where
  init w   := w.position = .start
  step w a := call.lockStep sha256 capacity me w a

end BatchCall
end Outbox
