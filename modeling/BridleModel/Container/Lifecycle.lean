import Mathlib.Data.String.Basic
import BridleModel.Library.Assoc
import BridleModel.Library.Execution

-- The containers of modules: how they are acquired, reused and replaced, and what is executed in them.
namespace Container

section Records

inductive ModuleContainerState
  | idle
  | queued
  | running
  | tainted
  | replacing
deriving DecidableEq, Repr

structure ModuleContainerRecord where
  containerId         : String
  name                : String
  moduleId            : String
  boundaryFingerprint : String
  imageVersion        : String
  state               : ModuleContainerState := .idle
  taintReason         : Option String        := none
  lastRunId           : Option String        := none
deriving DecidableEq, Repr

-- The fields of a request for a container that the manager reads, with the verdict of its validation.
structure ContainerRequest where
  name                : String
  moduleId            : String
  boundaryFingerprint : String
  imageVersion        : String
  valid               : Bool
deriving DecidableEq, Repr

def ContainerRequest.record (request : ContainerRequest) (containerId : String) : ModuleContainerRecord where
  containerId         := containerId
  name                := request.name
  moduleId            := request.moduleId
  boundaryFingerprint := request.boundaryFingerprint
  imageVersion        := request.imageVersion

end Records

section Runner

structure Inspection where
  status : String
  health : String
deriving DecidableEq, Repr

-- An inspection ends in a result, in an error that the manager catches, or in another one.
inductive Inspected
  | result (inspection : Inspection)
  | caught
  | raised
deriving DecidableEq, Repr

-- A container listed by the labels of its module, with the registry key and the name of the request that is
-- rebuilt for it.
structure Listed where
  containerId : String
  request     : Option (String × String)
deriving DecidableEq, Repr

-- The container found under a name; `identical` tells whether the request rebuilt for it is the one at hand.
structure Found where
  containerId : String
  identical   : Option Bool
  inspection  : Inspection
deriving DecidableEq, Repr

-- What the runner answers while a container is acquired; `none` is an exception.
structure Answers where
  listed    : Option (List Listed)
  inspected : Inspected
  found     : Option (Option Found)
  created   : Option String
  started   : Bool
deriving DecidableEq, Repr

-- How an exec ends. After another exception than a timeout the container is inspected.
inductive Outcome
  | exited (code : Int)
  | timeout
  | failed (error : String) (inspected : Inspected)
deriving DecidableEq, Repr

def Inspection.reusable (i : Inspection) : Bool :=
  i.status = "running" ∧ i.health ∈ ["healthy", "starting", "unknown"]

def Inspection.recovered (i : Inspection) : Bool :=
  i.status = "running" ∧ i.health ∈ ["healthy", "running", "unknown"]

def Found.adoptable (f : Found) : Bool :=
  f.identical = some true ∧ f.inspection.status = "running" ∧ f.inspection.health ∉ ["missing", "unhealthy"]

def containerIdsMatch (left right : String) : Bool :=
  left ≠ "" ∧ right ≠ "" ∧ (left.toList <+: right.toList ∨ right.toList <+: left.toList)

end Runner

-- What happens to containers: a command is executed, a fault is found that rules out their reuse (a timeout, a
-- failed recovery, a compromised slot root), and the manager cleans one up.
inductive Event
  | exec (containerId : String)
  | fault (containerId : String)
  | cleanup (containerId : String)
deriving DecidableEq, Repr

-- The registry maps its keys to records by their place in `records`, which callers hold as well.
structure Manager where
  registry   : List (String × Nat)
  activeKeys : List (String × String)
  records    : List ModuleContainerRecord
  seen       : List String -- the containers that ever had a record
  events     : List Event

namespace Manager

section Registry

def init : Manager :=
  { registry := [], activeKeys := [], records := [], seen := [], events := [] }

def log (m : Manager) (e : Event) : Manager :=
  { m with events := m.events ++ [e] }

def update (m : Manager) (ref : Nat) (f : ModuleContainerRecord → ModuleContainerRecord) : Manager :=
  { m with records := m.records.modify ref f }

def pop (m : Manager) (key : String) : Manager :=
  { m with registry := m.registry.filter (·.fst ≠ key) }

def upsert (m : Manager) (key : String) (record : ModuleContainerRecord) : Manager :=
  { m with
    registry := Assoc.set m.registry key m.records.length
    records  := m.records ++ [record]
    seen     := m.seen ++ [record.containerId] }

def activate (m : Manager) (moduleId key : String) : Manager :=
  { m with activeKeys := Assoc.set m.activeKeys moduleId key }

-- The record under a key and where it is
def registered (m : Manager) (key : String) : Option (Nat × ModuleContainerRecord) := do
  let ref ← Assoc.get m.registry key
  let record ← m.records[ref]?
  return (ref, record)

-- A record is marked as being replaced and its container is cleaned up.
def replaceRecord (m : Manager) (key : String) : Manager :=
  match m.registered key with
  | none               => m.pop key
  | some (ref, record) => ((m.update ref fun r => { r with state := .replacing }).log (.cleanup record.containerId)).pop key

end Registry

section Acquire

def retirePrevious (m : Manager) (moduleId activeKey : String) : Manager :=
  match Assoc.get m.activeKeys moduleId with
  | none             => m
  | some previousKey => if previousKey ≠ "" ∧ previousKey ≠ activeKey then m.replaceRecord previousKey else m

def retireOtherModuleContainers (m : Manager) (moduleId activeKey : String) : Manager :=
  let m := m.retirePrevious moduleId activeKey
  let others := m.registry.filter fun entry =>
    entry.fst ≠ activeKey ∧ (m.records[entry.snd]?).any (·.moduleId = moduleId)
  others.foldl (fun m entry => m.replaceRecord entry.fst) m

def retireDiscovered (activeKey name : String) (m : Manager) (c : Listed) : Manager :=
  match c.request with
  | none                     =>
    if (m.registered activeKey).any fun (_, record) => containerIdsMatch c.containerId record.containerId then m
    else m.log (.cleanup c.containerId)
  | some (inspectedKey, inspectedName) =>
    if inspectedKey = activeKey ∧ inspectedName = name then m
    else (m.log (.cleanup c.containerId)).pop inspectedKey

def retireDiscoveredModuleContainers (m : Manager) (activeKey name : String) (listed : List Listed) : Manager :=
  listed.foldl (retireDiscovered activeKey name) m

def adoptExistingByName (m : Manager) (request : ContainerRequest) (key : String) (f : Found) :
    Manager × Option Nat :=
  if f.adoptable then
    (m.upsert key (request.record f.containerId), some m.records.length)
  else
    (m.log (.cleanup f.containerId), none)

def createContainer (m : Manager) (request : ContainerRequest) (key : String) (answers : Answers) :
    Manager × Option Nat :=
  match answers.created with
  | none             => (m, none)
  | some containerId =>
    if answers.started then
      ((m.upsert key (request.record containerId)).activate request.moduleId key, some m.records.length)
    else
      (m.log (.cleanup containerId), none)

def adoptOrCreate (m : Manager) (request : ContainerRequest) (key : String) (replace : Bool) (answers : Answers) :
    Manager × Option Nat :=
  match answers.found with
  | none          => (m, none)
  | some none     => m.createContainer request key answers
  | some (some f) =>
    match m.adoptExistingByName request key f with
    | (m, none)     => m.createContainer request key answers
    | (m, some ref) =>
      if replace then m.createContainer request key answers
      else (m.activate request.moduleId key, some ref)

-- `_acquire_locked` once the registered container is not reused
def renew (m : Manager) (request : ContainerRequest) (key : String) (replace : Bool) (answers : Answers) :
    Manager × Option Nat :=
  let replace := replace ∨ (m.registered key).any (·.snd.state = .tainted)
  let m := if (m.registered key).isSome ∧ replace then m.replaceRecord key else m
  m.adoptOrCreate request key replace answers

-- The record acquired, or none if the call raises.
def acquireLocked (m : Manager) (request : ContainerRequest) (key : String) (replace : Bool) (answers : Answers) :
    Manager × Option Nat :=
  if ¬request.valid then (m, none)
  else
    let m := m.retireOtherModuleContainers request.moduleId key
    match answers.listed with
    | none        => (m, none)
    | some listed =>
      let m := m.retireDiscoveredModuleContainers key request.name listed
      match m.registered key with
      | none               => m.renew request key replace answers
      | some (ref, record) =>
        if replace ∨ record.state ∈ [.tainted, .replacing] then
          m.renew request key replace answers
        else if record.state = .running then
          (m, none)
        else
          let unhealthy := m.update ref fun r => { r with state := .tainted, taintReason := some "health_check_failed" }
          match answers.inspected with
          | .raised            => (m, none)
          | .caught            => unhealthy.renew request key replace answers
          | .result inspection =>
            if inspection.reusable then
              ((m.update ref fun r => { r with state := .idle }).activate request.moduleId key, some ref)
            else
              unhealthy.renew request key replace answers

end Acquire

section Exec

def recoverIdle : Inspected → Bool
  | .result inspection => inspection.recovered
  | _                  => false

def markTainted (reason : String) (r : ModuleContainerRecord) : ModuleContainerRecord :=
  { r with state := .tainted, taintReason := some reason }

-- `_exec_task_unlocked`; an inspection that raises leaves the record running.
def execTask (m : Manager) (ref : Nat) (runId : String) (outcome : Outcome) : Manager :=
  match m.records[ref]? with
  | none        => m
  | some record =>
    if record.state = .running then m
    else
      let m := (m.update ref fun r => { r with lastRunId := some runId }).log (.exec record.containerId)
      match outcome with
      | .exited _ => m.update ref fun r => { r with state := .idle }
      | .timeout => (m.update ref (markTainted "exec_timeout")).log (.fault record.containerId)
      | .failed _ .raised => (m.update ref fun r => { r with state := .running }).log (.fault record.containerId)
      | .failed error inspected =>
        if recoverIdle inspected then m.update ref fun r => { r with state := .idle }
        else (m.update ref (markTainted error)).log (.fault record.containerId)

def markSlotRootCompromised (m : Manager) (key reason : String) : Manager :=
  match m.registered key with
  | none               => m
  | some (ref, record) => (m.update ref (markTainted reason)).log (.fault record.containerId)

def markRunFailed (m : Manager) (key : String) : Manager :=
  match m.registered key with
  | none               => m
  | some (ref, record) => if record.state = .running then m else m.update ref fun r => { r with state := .idle }

end Exec

section Calls

-- How far a transaction gets before it acquires a container: `prepare` may find the root of the slot linked or
-- locked, or it or the request builder may fail.
inductive Prepared
  | done
  | compromised (reason : String)
  | failed
deriving DecidableEq, Repr

-- The arguments of an acquisition
structure Acquisition where
  request : ContainerRequest
  key     : String
  replace : Bool
  answers : Answers
deriving DecidableEq, Repr

def acquire (m : Manager) (q : Acquisition) : Manager × Option Nat :=
  m.acquireLocked q.request q.key q.replace q.answers

inductive Action
  | acquire (q : Acquisition)
  | execTask (ref : Nat) (runId : String) (outcome : Outcome)
  | runModuleTransaction (prepared : Prepared) (q : Acquisition) (runId : String) (outcome : Outcome)
  | markSlotRootCompromised (key reason : String)
  | runCandidateTestTransaction (prepared : Prepared) (q : Acquisition) (runId : String) (outcome : Outcome)
  | runModuleExec (q : Acquisition) (runId : String) (outcome : Outcome)
deriving DecidableEq, Repr

-- The acquisition that an action makes.
def Action.acquisition : Action → Option Acquisition
  | .acquire q                               => some q
  | .runModuleTransaction .done q _ _        => some q
  | .runCandidateTestTransaction .done q _ _ => some q
  | .runModuleExec q _ _                     => some q
  | _                                        => none

def acquireAndExec (m : Manager) (q : Acquisition) (runId : String) (outcome : Outcome) : Manager × Option Nat :=
  match m.acquire q with
  | (m, none)     => (m, none)
  | (m, some ref) => (m.execTask ref runId outcome, some ref)

def exitFailed : Outcome → Bool
  | .exited code => code ≠ 0
  | _            => true

-- An action, and the record that it acquired.
def call (m : Manager) : Action → Manager × Option Nat
  | .acquire q                                          => m.acquire q
  | .execTask ref runId outcome                         => (m.execTask ref runId outcome, none)
  | .runModuleTransaction .done q runId outcome         => m.acquireAndExec q runId outcome
  | .runModuleTransaction _ _ _ _                       => (m, none)
  | .markSlotRootCompromised key reason                 => (m.markSlotRootCompromised key reason, none)
  | .runCandidateTestTransaction .done q runId outcome  =>
    match m.acquireAndExec q runId outcome with
    | (m, none)     => (m, none)
    | (m, some ref) => (if exitFailed outcome then m.markRunFailed q.key else m, some ref)
  | .runCandidateTestTransaction (.compromised reason) q _ _ => (m.markSlotRootCompromised q.key reason, none)
  | .runCandidateTestTransaction .failed _ _ _          => (m, none)
  | .runModuleExec q runId outcome                      =>
    match m.acquireAndExec q runId outcome with
    | (m, none)     => (m, none)
    | (m, some ref) => (if exitFailed outcome ∧ outcome ≠ .timeout then m.markRunFailed q.key else m, some ref)

-- The runner gives every container that it creates an id of its own.
def step (m : Manager) (a : Action) : Option Manager := do
  guard (∀ q ∈ a.acquisition, ∀ containerId ∈ q.answers.created, containerId ∉ m.seen)
  return (m.call a).fst

end Calls
end Manager

def containers : TransitionSystem Manager Manager.Action where
  init m := m = .init
  step   := Manager.step

end Container
