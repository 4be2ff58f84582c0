import BridleModel.Library.Except
import BridleModel.Plan.Database

namespace Plan

def stringOrNull : Option ModificationState → Json
  | none   => .null
  | some s => .str s.value

namespace Db

-- UPDATE test_contracts SET state = 'invalidated' WHERE ... AND state = 'frozen'
def invalidated (db : Db) (nodeId contractVersion reason : String) :
    Table ContractRow ContractRow.keys :=
  db.contracts.modify
    (fun row => row.nodeId = nodeId ∧ row.contractVersion = contractVersion ∧ row.state = .frozen)
    (fun row => { row with state := .invalidated, invalidationReason := some reason })
    (by simp +contextual [ContractRow.keys])

-- What a transition does to the contract of its node: the rows of `test_contracts` it leaves, the
-- version it records in the workflow and the payload it stores with the event.
structure ContractStep where
  contracts : Table ContractRow ContractRow.keys
  next      : Option String
  payload   : Json.Dict

def contractStep (db : Db) (nodeId : String) (event : ModificationEvent) (current : Option String)
    (payload : Json.Dict) : Except Error ContractStep :=
  if event = .testContractApproved ∨ event = .redAllowed then
    match db.activeContract? nodeId with
    | none => .error <| .conflict "test_contract"
        "A frozen test contract is required for this transition" "test_contract_required"
        [("node_id", .str nodeId), ("event", .str event.value)]
    | some active =>
      if event = .redAllowed ∧ current ≠ some active.contractVersion then
        .error <| .conflict "test_contract"
          "The approved frozen test contract is no longer current" "test_contract_stale"
          [("node_id", .str nodeId), ("approved_contract_version", .ofOption current),
            ("active_contract_version", .str active.contractVersion)]
      else
        .ok {
          contracts := db.contracts
          next      := some active.contractVersion
          payload   := payload.set "test_contract_version" (.str active.contractVersion)
        }
  else if event = .invalidTest ∨ event = .baselineExpired then
    match current with
    | none   => .ok { contracts := db.contracts, next := none, payload }
    | some v => .ok {
        contracts := db.invalidated nodeId v event.value
        next      := none
        payload   := payload.set "invalidated_contract_version" (.str v)
      }
  else
    match current with
    | none   => .ok { contracts := db.contracts, next := none, payload }
    | some v => .ok {
        contracts := db.contracts
        next      := some v
        payload   := payload.set "test_contract_version" (.str v)
      }

-- UPDATE modification_workflows SET ... WHERE node_id = ? AND revision = ?
def updateWorkflow (db : Db) (nodeId : String) (currentRevision : Nat)
    (f : WorkflowRow → WorkflowRow) (h : ∀ row, (f row).nodeId = row.nodeId) :
    Except Error (Table WorkflowRow fun row => [row.nodeId]) :=
  let p row := decide (row.nodeId = nodeId ∧ row.revision = currentRevision)
  if db.workflows.rowcount p ≠ 1 then
    .error <| .conflict "modification_workflow" "Modification workflow changed concurrently"
      "modification_revision_conflict"
      [("node_id", .str nodeId), ("actual_revision", .num currentRevision)]
  else
    .ok <| db.workflows.modify p f (by simp [h])

-- The workflow row after a transition: inserted for a node that has none, updated otherwise.
def writeWorkflow (db : Db) (nodeId : String) (toState : ModificationState) (revision : Nat)
    (contractVersion : Option String) : Except Error (Table WorkflowRow fun row => [row.nodeId]) :=
  match db.workflow? nodeId with
  | none =>
    match db.workflows.insert? ⟨nodeId, toState, revision, contractVersion⟩ with
    | none   => .error .integrity
    | some t => .ok t
  | some current =>
    db.updateWorkflow nodeId current.revision
      (fun row => { row with state := toState, revision, testContractVersion := contractVersion })
      (fun _ => rfl)

-- INSERT INTO modification_events, followed by its change event.
def insertEvent (db : Db) (row : EventRow) (contractVersion : Option String) : Except Error Db :=
  match db.events.insert? row with
  | none        => .error .integrity
  | some events => .ok <| { db with events }.recordChange "modification_workflow" row.nodeId
      "transition" [
        ("event", .str row.event.value),
        ("event_id", .str row.eventId),
        ("from_state", stringOrNull row.fromState),
        ("to_state", .str row.toState.value),
        ("revision", .num row.revision),
        ("test_contract_version", .ofOption contractVersion)
      ]

end Db

structure TransitionResult where
  nodeId              : String
  state               : ModificationState
  revision            : Nat
  testContractVersion : Json
  applied             : Bool
deriving Repr

namespace Db

def applyModificationTransition (db : Db) (nodeId : String) (event : ModificationEvent)
    (eventId : String) (allowedFrom : List (Option ModificationState)) (toState : ModificationState)
    (expectedRevision : Option Int) (payload : Option Json.Dict) :
    Except Error (Db × TransitionResult) :=
  match db.events.lookup eventId with
  | some existing =>
    if existing.nodeId ≠ nodeId ∨ existing.event ≠ event ∨ existing.toState ≠ toState then
      .error <| .conflict "modification_workflow"
        "Modification event ID is already bound to another transition" "modification_event_conflict"
        [("event_id", .str eventId), ("node_id", .str nodeId)]
    else
      .ok (db, {
        nodeId
        state               := existing.toState
        revision            := existing.revision
        testContractVersion := (existing.payload.get "test_contract_version").getD .null
        applied             := false
      })
  | none =>
    let currentState := db.stateOf nodeId
    let currentRevision := db.revisionOf nodeId
    if expectedRevision.any (· ≠ (currentRevision : Int)) then
      .error <| .conflict "modification_workflow" "Modification workflow revision changed"
        "modification_revision_conflict"
        [("node_id", .str nodeId), ("expected_revision", .num (expectedRevision.getD 0)),
          ("actual_revision", .num currentRevision)]
    else if currentState ∉ allowedFrom then
      .error <| .conflict "modification_workflow"
        "Modification transition is not allowed from the current state"
        "modification_transition_invalid"
        [("node_id", .str nodeId), ("event", .str event.value),
          ("from_state", stringOrNull currentState),
          ("allowed_from", .arr <|
            ((allowedFrom.filterMap (·.map (·.value))).mergeSort).map .str)]
    else do
      let ⟨contracts, next, payload⟩ ←
        db.contractStep nodeId event (db.contractOf nodeId) (payload.getD [])
      let revision := currentRevision + 1
      let workflows ← db.writeWorkflow nodeId toState revision next
      let db ← { db with workflows, contracts }.insertEvent
        ⟨eventId, nodeId, event, currentState, toState, revision, payload⟩ next
      return (db, {
        nodeId
        state               := toState
        revision
        testContractVersion := .ofOption next
        applied             := true
      })

-- `ModificationWorkflow.apply`
def apply (db : Db) (nodeId : String) (event : ModificationEvent) (eventId : String)
    (expectedRevision : Option Int) (payload : Option Json.Dict) :
    Except Error (Db × TransitionResult) :=
  db.applyModificationTransition nodeId event eventId event.allowed event.target expectedRevision
    payload

-- The transition `row` was appended to the log of its node, with `next` as the contract version that
-- the workflow records from then on. Both writers of `modification_events` do just this.
structure Appends (db : Db) (row : EventRow) (next : Option String) (db' : Db) : Prop where
  fresh       : db.events.lookup row.eventId = none
  from_eq     : db.stateOf row.nodeId = row.fromState
  allowed     : row.fromState ∈ row.event.allowed
  to_eq       : row.toState = row.event.target
  revision_eq : row.revision = db.revisionOf row.nodeId + 1
  workflow_eq : ∀ n, db'.workflow? n =
    if n = row.nodeId then some ⟨row.nodeId, row.toState, row.revision, next⟩ else db.workflow? n
  events_eq   : db'.events.rows = db.events.rows ++ [row]

-- What a call of `apply` did when it was not a replay.
structure Applied (db : Db) (nodeId : String) (event : ModificationEvent) (eventId : String)
    (expectedRevision : Option Int) (row : EventRow) (next : Option String) (db' : Db) : Prop
    extends Appends db row next db' where
  nodeId_eq  : row.nodeId = nodeId
  event_eq   : row.event = event
  eventId_eq : row.eventId = eventId
  expected   : ∀ r ∈ expectedRevision, r = db.revisionOf nodeId
  contract   : ∃ payload,
    db.contractStep nodeId event (db.contractOf nodeId) payload = .ok ⟨db'.contracts, next, row.payload⟩
  runs_eq    : db'.runs = db.runs

section Writers

variable {db db' : Db} {row : EventRow} {nodeId : String} {next : Option String}

theorem insertEvent_ok (h : db.insertEvent row next = .ok db') :
    (∃ events, db.events.insert? row = some events ∧ db'.events = events) ∧
    db'.workflows = db.workflows ∧ db'.contracts = db.contracts ∧ db'.runs = db.runs := by
  unfold insertEvent at h
  split at h <;> cases h
  case h_2 events he => exact ⟨⟨events, he, rfl⟩, rfl, rfl, rfl⟩

theorem updateWorkflow_ok {f : WorkflowRow → WorkflowRow} {hf} {revision : Nat}
    {t : Table WorkflowRow fun row => [row.nodeId]}
    (h : db.updateWorkflow nodeId revision f hf = .ok t) (n : String) :
    t.lookup n = if n = nodeId then (db.workflow? n).map f else db.workflow? n := by
  simp only [updateWorkflow] at h
  split at h <;> cases h
  case isFalse hc =>
    obtain ⟨cur, hl, hp⟩ := (Table.rowcount_eq_one_iff (k := nodeId) (by simp +contextual)).mp <|
      not_not.mp hc
    rw [Table.lookup_modify_of_keys_eq (by simp [hf])]
    simp only [decide_eq_true_eq] at hp ⊢
    split
    case isTrue hn => subst hn; simp [workflow?, hl, hp]
    case isFalse hn =>
      cases hl' : db.workflows.lookup n with
      | none     => simp [workflow?, hl']
      | some row =>
        have hk : n = row.nodeId := by simpa using Table.lookup_key hl'
        have hne : row.nodeId ≠ nodeId := hk ▸ hn
        simp [workflow?, hl', hne]

theorem writeWorkflow_ok {toState : ModificationState} {revision : Nat}
    {t : Table WorkflowRow fun row => [row.nodeId]}
    (h : db.writeWorkflow nodeId toState revision next = .ok t) (n : String) :
    t.lookup n = if n = nodeId then some ⟨nodeId, toState, revision, next⟩ else db.workflow? n := by
  unfold writeWorkflow at h
  split at h
  case h_1 =>
    split at h <;> cases h
    case h_2 ht => simp [Table.lookup_insert? ht, workflow?]
  case h_2 current hw =>
    rw [updateWorkflow_ok h n]
    split
    case isFalse => rfl
    case isTrue hn =>
      have hk : nodeId = current.nodeId := by simpa using Table.lookup_key hw
      simp [hn, hw, ← hk]

end Writers

section Apply

variable {db db' : Db} {nodeId eventId : String} {event : ModificationEvent}
  {expectedRevision : Option Int} {payload : Option Json.Dict} {res : TransitionResult}

theorem apply_existing {existing : EventRow} (h : db.events.lookup eventId = some existing) :
    (∃ e, db.apply nodeId event eventId expectedRevision payload = .error e) ∨
    (∃ res, db.apply nodeId event eventId expectedRevision payload = .ok (db, res) ∧
      res.applied = false ∧ res.state = existing.toState ∧ existing.nodeId = nodeId ∧
      existing.event = event) := by
  simp only [apply, applyModificationTransition, h]
  split
  case isTrue     => exact .inl ⟨_, rfl⟩
  case isFalse hn =>
    push Not at hn
    exact .inr ⟨_, rfl, rfl, rfl, hn.1, hn.2.1⟩

theorem apply_cases (h : db.apply nodeId event eventId expectedRevision payload = .ok (db', res)) :
    (db' = db ∧ res.applied = false ∧ ∃ existing, db.events.lookup eventId = some existing ∧
      res.state = existing.toState ∧ existing.nodeId = nodeId ∧ existing.event = event) ∨
    (res.applied = true ∧ res.state = event.target ∧
      ∃ row next, Applied db nodeId event eventId expectedRevision row next db') := by
  cases hl : db.events.lookup eventId
  case some existing =>
    rcases apply_existing hl with ⟨_, he⟩ | ⟨_, he, ha, hx⟩ <;> cases h.symm.trans he
    exact .inl ⟨rfl, ha, existing, rfl, hx⟩
  case none =>
    refine .inr ?_
    simp only [apply, applyModificationTransition, hl] at h
    split at h
    case isTrue => cases h
    case isFalse he =>
    split at h
    case isTrue => cases h
    case isFalse ha =>
    simp only [Except.bind_eq_ok_iff] at h
    obtain ⟨step, hc, workflows, hw, db₁, hi, hr⟩ := h
    cases hr
    obtain ⟨⟨events, hins, hev⟩, hwf, hct, hrn⟩ := insertEvent_ok hi
    let row : EventRow :=
      ⟨eventId, nodeId, event, db.stateOf nodeId, event.target, db.revisionOf nodeId + 1, step.payload⟩
    refine ⟨rfl, rfl, row, step.next, {
      fresh       := hl
      from_eq     := rfl
      allowed     := not_not.mp ha
      to_eq       := rfl
      revision_eq := rfl
      workflow_eq := fun n => ?_
      events_eq   := ?_
      nodeId_eq   := rfl
      event_eq    := rfl
      eventId_eq  := rfl
      expected    := ?_
      contract    := ⟨payload.getD [], by rw [hct]; exact hc⟩
      runs_eq     := hrn
    }⟩
    · simp only [workflow?, hwf]
      exact writeWorkflow_ok hw n
    · rw [hev]
      exact Table.insert?_rows hins
    · intro r hr
      cases hr
      simpa using he

end Apply
end Db
end Plan
