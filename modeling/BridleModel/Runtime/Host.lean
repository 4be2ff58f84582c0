import Mathlib.Data.List.Sort
import Mathlib.Data.String.Basic
import BridleModel.Library.EventLoop

-- `AgentRuntimeHost`: the calls of one process on its event loop
namespace RuntimeHost

section Handles

inductive Role
  | parent
  | child
  | map
deriving DecidableEq, Repr

inductive State
  | creating
  | ready
  | running
  | stopping
  | completed
  | failed
  | cancelled
  | destroyed
  | interrupted
deriving DecidableEq, Repr

-- `ALLOWED_TRANSITIONS`
def State.allowed : State → List State
  | .creating                                          => [.ready, .failed, .cancelled]
  | .ready                                             => [.running, .stopping, .failed, .cancelled]
  | .running                                           => [.stopping, .completed, .failed, .cancelled, .interrupted]
  | .stopping                                          => [.completed, .failed, .cancelled, .interrupted]
  | .completed | .failed | .cancelled | .interrupted => [.destroyed]
  | .destroyed                                         => []

-- The states that `_require_active_parent` asks for, and those that `stop` leaves alone
def State.active : State → Bool
  | .ready | .running => true
  | _                 => false

def State.settled : State → Bool
  | .completed | .failed | .cancelled | .interrupted | .destroyed => true
  | _                                                             => false

inductive Error
  | parentRequired
  | parentInactive
  | sessionRequired
  | conflict
  | scopeEscalation
  | invalidTransition
  | persistence
  | cancelled
deriving DecidableEq, Repr

structure Spec where
  projectId  : String
  agentId    : String
  generation : Nat
  role       : Role
  sessionId  : Option String
  parentId   : Option String
deriving DecidableEq, Repr

abbrev Key := Role × String × Option String

-- `_singleton_key`
def singletonKey (role : Role) (projectId : String) (sessionId : Option String) : Except Error (Option Key) :=
  match role, sessionId with
  | .parent, none    => .error .sessionRequired
  | .parent, some id => .ok (some (.parent, projectId, some id))
  | .map, _          => .ok (some (.map, projectId, none))
  | .child, _        => .ok none

def Spec.key (spec : Spec) : Option Key :=
  match singletonKey spec.role spec.projectId spec.sessionId with
  | .ok key  => key
  | .error _ => none

-- The names of the tools and of the skills of a `CapabilityView`
structure Capabilities where
  tools  : List String
  skills : List String
deriving DecidableEq, Repr

structure Request where
  spec          : Spec
  grantedTools  : List String
  grantedSkills : List String
  sourceTools   : List String
  sourceSkills  : List String
  hasTask       : Bool

-- `{name: source[name] for name in sorted(granted) if name in source}`
def frozen (granted source : List String) : List String :=
  (granted.dedup.insertionSort (· ≤ ·)).filter (· ∈ source)

def capabilityView (request : Request) (parent : Option Capabilities) : Except Error Capabilities :=
  if parent.any fun view => ¬(request.grantedTools ⊆ view.tools ∧ request.grantedSkills ⊆ view.skills) then
    .error .scopeEscalation
  else
    .ok {
      tools  := frozen request.grantedTools request.sourceTools
      skills := frozen request.grantedSkills request.sourceSkills
    }

-- `task` tells whether the runtime's own task is done.
structure Handle where
  spec         : Spec
  capabilities : Capabilities
  state        : State
  children     : List String
  task         : Option Bool
  closing      : Bool
  closed       : Bool
  stopTask     : Option Nat
  destroyTask  : Option Nat

end Handles

section World

-- What callers ask `transition` for
inductive Outcome
  | running
  | completed
  | failed
  | cancelled

def Outcome.state : Outcome → State
  | .running   => .running
  | .completed => .completed
  | .failed    => .failed
  | .cancelled => .cancelled

-- With `own` a call comes from the task of the runtime itself.
inductive Code
  | create (request : Request)
  | transition (id : String) (outcome : Outcome)
  | stop (id : String) (own : Bool)
  | destroy (id : String) (own : Bool)
  | finishStop (id : String)
  | finishDestroy (id : String)

structure Task where
  code   : Code
  result : Option (Except Error Unit)

inductive Lock
  | create
  | transition (id : String)
  | stop (id : String)
deriving DecidableEq

-- `records` are the statuses in `agent_runtimes`. `admitted` is not in the code: it names the parent that the creation
-- under the lock has found active.
structure World where
  records    : String → Option State
  handles    : String → Option Handle
  registered : String → Bool
  singletons : Key → Option String
  locks      : Lock → Option Nat
  admitted   : Option String
  tasks      : Nat → Option Task
  next       : Nat

-- How an await goes on. With `late` the transaction has been committed when the exception comes.
inductive Choice
  | go
  | drawn (id : String)
  | fails
  | late (id : String)
  | cancel

abbrev Co := Coroutine World Choice Error

namespace World

variable (w : World)

def updateHandle (id : String) (f : Handle → Handle) : World :=
  { w with handles := Function.update w.handles id ((w.handles id).map f) }

def stateOf (id : String) : Option State :=
  (w.handles id).map (·.state)

def acquire (lock : Lock) (p : Nat) : World :=
  { w with locks := Function.update w.locks lock (some p) }

def release (lock : Lock) : World :=
  {
    w with
    locks    := Function.update w.locks lock none
    admitted := if lock = .create then none else w.admitted
  }

def setRecord (id : String) (state : State) : World :=
  { w with records := Function.update w.records id (some state) }

def setState (id : String) (state : State) : World :=
  w.updateHandle id ({ · with state })

-- `_children`
def registeredChildren (id : String) : List String :=
  match w.handles id with
  | none   => []
  | some h => h.children.filter (w.registered ·)

def accept (parent : Option String) : World :=
  { w with admitted := parent }

def newHandle (request : Request) (capabilities : Capabilities) : Handle where
  spec         := request.spec
  capabilities := capabilities
  state        := .creating
  children     := []
  task         := if request.hasTask then some false else none
  closing      := false
  closed       := false
  stopTask     := none
  destroyTask  := none

def addChild (id : String) (h : Handle) : Handle :=
  { h with children := h.children ++ [id] }

def register (id : String) (request : Request) (capabilities : Capabilities) : World :=
  let others :=
    match request.spec.parentId with
    | none        => w
    | some parent => w.updateHandle parent (addChild id)
  {
    w with
    handles    := Function.update others.handles id (some (newHandle request capabilities))
    registered := Function.update w.registered id true
    singletons :=
      match request.spec.key with
      | none     => w.singletons
      | some key => Function.update w.singletons key (some id)
  }

-- `_remove_handle`
def remove (id : String) : World :=
  {
    w with
    registered := Function.update w.registered id false
    singletons :=
      match (w.handles id).bind (·.spec.key) with
      | none     => w.singletons
      | some key => if w.singletons key = some id then Function.update w.singletons key none else w.singletons
  }

def addTask (code : Code) : World :=
  { w with tasks := Function.update w.tasks w.next (some { code, result := none }), next := w.next + 1 }

def finish (p : Nat) (result : Except Error Unit) : World :=
  { w with tasks := Function.update w.tasks p ((w.tasks p).map ({ · with result := some result })) }

-- `_finalizer_needs_retry`
def needsRetry (t : Nat) : Bool :=
  match w.tasks t with
  | some { result := some (.error _), .. } => true
  | _                                      => false

end World
end World

section Calls

open Coroutine

def acquire (lock : Lock) (p : Nat) : Co Unit :=
  wait fun choice w =>
    match choice with
    | .go     => if w.locks lock = none then some (w.acquire lock p, .ok ()) else none
    | .cancel => some (w, .error .cancelled)
    | _       => none

def withLock {α : Type} (lock : Lock) (p : Nat) (body : Co α) : Co α := do
  acquire lock p
  let result ← attempt body
  modify (·.release lock)
  .done result

def stateOf (id : String) : Co (Option State) :=
  read (·.stateOf id)

-- The transaction of `update_runtime_state`
def updateRuntimeState (id : String) (target : State) : Co Unit :=
  wait fun choice w =>
    match choice with
    | .go     => some (w.setRecord id target, .ok ())
    | .late _ => some (w.setRecord id target, .error .cancelled)
    | .fails  => some (w, .error .persistence)
    | .cancel => some (w, .error .cancelled)
    | _       => none

def transition (p : Nat) (id : String) (target : State) : Co Unit :=
  withLock (.transition id) p do
    let source ← stateOf id
    require (source.any (target ∈ ·.allowed)) .invalidTransition
    updateRuntimeState id target
    modify (·.setState id target)

def waitForTask (t : Nat) : Co Unit :=
  wait fun choice w =>
    match choice with
    | .go     => (w.tasks t).bind fun task => task.result.map fun result => (w, result)
    | .cancel => some (w, .error .cancelled)
    | _       => none

def waitUntil (due : World → Bool) : Co Unit :=
  wait fun choice w =>
    match choice with
    | .go     => if due w then some (w, .ok ()) else none
    | .cancel => some (w, .error .cancelled)
    | _       => none

-- `_cancel_task`
def cancelTask (id : String) : Co Unit := do
  let running ← read fun w => (w.handles id).any (·.task = some false)
  if running then
    waitUntil fun w => !(w.handles id).any (·.task = some false)

-- The closers run in a task of their own.
def closeResources (id : String) : Co Unit := do
  let closed ← read fun w => (w.handles id).any (·.closed)
  if !closed then
    modify (·.updateHandle id ({ · with closing := true }))
    waitUntil fun w => (w.handles id).any (·.closed)

-- A finalizer that has failed is forgotten.
def liveStop (id : String) : Co (Option Nat) :=
  act fun w =>
    let task := ((w.handles id).bind (·.stopTask)).filter (!w.needsRetry ·)
    (w.updateHandle id ({ · with stopTask := task }), task)

def spawnStop (id : String) : Co Nat :=
  act fun w => ((w.addTask (.finishStop id)).updateHandle id ({ · with stopTask := some w.next }), w.next)

def stopLocked (p : Nat) (id : String) : Co (Option Nat) := do
  let state ← stateOf id
  if state.any (·.settled) then
    pure none
  else
    match ← liveStop id with
    | some t => pure (some t)
    | none   => do
      if state ≠ some .stopping then
        transition p id .stopping
      let t ← spawnStop id
      pure (some t)

def stop (p : Nat) (own : Bool) (id : String) : Co Unit := do
  let stopTask ← withLock .create p (withLock (.stop id) p (stopLocked p id))
  match stopTask with
  | none   => pure ()
  | some t => if own then pure () else waitForTask t

def finishStop (p : Nat) (id : String) : Co Unit := do
  let children ← read (·.registeredChildren id)
  inTurn (stop p false) children
  cancelTask id
  closeResources id
  let state ← stateOf id
  if state = some .stopping then
    transition p id .completed

def liveDestroy (id : String) : Co (Option Nat) :=
  act fun w =>
    let task := ((w.handles id).bind (·.destroyTask)).filter (!w.needsRetry ·)
    (w.updateHandle id ({ · with destroyTask := task }), task)

def spawnDestroy (id : String) : Co Nat :=
  act fun w => ((w.addTask (.finishDestroy id)).updateHandle id ({ · with destroyTask := some w.next }), w.next)

def destroyLocked (id : String) : Co Nat := do
  match ← liveDestroy id with
  | some t => pure t
  | none   => spawnDestroy id

def destroy (p : Nat) (own : Bool) (id : String) : Co Unit := do
  let destroyTask ← withLock (.stop id) p (destroyLocked id)
  if own then pure () else waitForTask destroyTask

def bury (p : Nat) (id : String) : Co Unit := do
  let state ← stateOf id
  if state ≠ some .destroyed then
    transition p id .destroyed

def finishDestroy (p : Nat) (id : String) : Co Unit := do
  stop p false id
  let children ← read (·.registeredChildren id)
  inTurn (destroy p false) children
  withLock (.stop id) p (bury p id)
  withLock .create p (modify (·.remove id))

end Calls

section Creation

open Coroutine

-- What a creation under the lock comes to
inductive Made
  | existing (id : String)
  | created (id : String)
  | broken (id : String) (error : Error)

def parentActive (parent : Option String) (w : World) : Bool :=
  parent.all fun id => (w.stateOf id).any (·.active)

-- The live runtime of the same key
def existing? (key : Option Key) (w : World) : Option (String × Handle) := do
  let id ← w.singletons (← key)
  let handle ← w.handles id
  guard (handle.state ≠ .destroyed)
  return (id, handle)

-- The transaction of `_create_record`, which draws the id
def createRecord : Co String :=
  wait fun choice w =>
    match choice with
    | .drawn id => if w.records id = none then some (w.setRecord id .creating, .ok id) else none
    | .late id  => if w.records id = none then some (w.setRecord id .creating, .error .cancelled) else none
    | .fails    => some (w, .error .persistence)
    | .cancel   => some (w, .error .cancelled)
    | .go       => none

def build (p : Nat) (request : Request) : Co Made := do
  let capabilities ← read fun w =>
    capabilityView request ((request.spec.parentId.bind w.handles).map (·.capabilities))
  let capabilities ← .done capabilities
  let id ← createRecord
  modify (·.register id request capabilities)
  let started ← attempt (transition p id .ready)
  match started with
  | .ok _        => pure (.created id)
  | .error error => do
    let _ ← attempt (transition p id (if error = .cancelled then .cancelled else .failed))
    modify (·.remove id)
    pure (.broken id error)

def createLocked (p : Nat) (request : Request) (key : Option Key) : Co Made := do
  let active ← act fun w =>
    let active := parentActive request.spec.parentId w
    (if active then w.accept request.spec.parentId else w, active)
  require active .parentInactive
  let existing ← read (existing? key)
  match existing with
  | some (id, handle) =>
    if handle.spec.agentId = request.spec.agentId ∧ handle.spec.generation = request.spec.generation then
      pure (.existing id)
    else
      raise .conflict
  | none              => build p request

-- `_cleanup_failed_creation`
def cleanup (p : Nat) (id : String) (cancelled : Bool) : Co Unit := do
  cancelTask id
  closeResources id
  let state ← stateOf id
  if cancelled ∧ state = some .cancelled then
    let _ ← attempt (transition p id .destroyed)

def createRuntime (p : Nat) (request : Request) : Co Unit := do
  require (request.spec.role ≠ .child ∨ request.spec.parentId.isSome) .parentRequired
  let active ← read (parentActive request.spec.parentId)
  require active .parentInactive
  let key ← .done (singletonKey request.spec.role request.spec.projectId request.spec.sessionId)
  let made ← withLock .create p (createLocked p request key)
  match made with
  | .existing _      => pure ()
  | .created _       => withLock .create p (pure ())
  | .broken id error => do
    cleanup p id (error = .cancelled)
    raise error

end Creation

section System

open Coroutine

def body (p : Nat) : Code → Co Unit
  | .create request        => createRuntime p request
  | .transition id outcome => transition p id outcome.state
  | .stop id own           => stop p own id
  | .destroy id own        => destroy p own id
  | .finishStop id         => finishStop p id
  | .finishDestroy id      => finishDestroy p id

-- The handles that a call from outside names exist.
def Code.known (w : World) : Code → Bool
  | .create request                                => request.spec.parentId.all fun id => (w.handles id).isSome
  | .transition id _ | .stop id _ | .destroy id _ => (w.handles id).isSome
  | .finishStop _ | .finishDestroy _               => false

inductive Outside
  | call (code : Code)
  | ended (id : String)
  | closed (id : String)

def outside : Outside → World → Option World
  | .call code, w => if code.known w then some (w.addTask code) else none
  | .ended id, w  => some (w.updateHandle id fun h => { h with task := h.task.map fun _ => true })
  | .closed id, w => some (w.updateHandle id fun h => { h with closed := h.closed || h.closing })

def program (w : World) (p : Nat) : Option (Co Unit) :=
  match w.tasks p with
  | some { code, result := none } => some do
    let result ← attempt (body p code)
    modify (·.finish p result)
  | _                             => none

def World.empty : World where
  records    := fun _ => none
  handles    := fun _ => none
  registered := fun _ => false
  singletons := fun _ => none
  locks      := fun _ => none
  admitted   := none
  tasks      := fun _ => none
  next       := 0

def eventLoop : EventLoop World Choice Error Outside where
  init    := fun w => (∃ records, w = { World.empty with records })
  outside := outside
  program := program

end System
end RuntimeHost
