import Mathlib.Data.List.Chain
import BridleModel.Plan.System

namespace Plan

namespace ModificationEvent

-- The events that start the pipeline over.
def restarts : ModificationEvent → Bool
  | start | invalidTest | baselineExpired => true
  | _                                     => false

def pipeline : List ModificationEvent := [
  testContractApproved, redAllowed, redVerificationStarted, redConfirmed, implementationStarted,
  submitted, finalVerificationStarted, finalVerificationPassed
]

end ModificationEvent

-- The part of the pipeline that a workflow in this state has behind it.
def ModificationState.passed : ModificationState → List ModificationEvent
  | testAuthoring        => []
  | testContractApproved => ModificationEvent.pipeline.take 1
  | redAllowed           => ModificationEvent.pipeline.take 2
  | redVerifying         => ModificationEvent.pipeline.take 3
  | redConfirmed         => ModificationEvent.pipeline.take 4
  | implementing         => ModificationEvent.pipeline.take 5
  | submitted            => ModificationEvent.pipeline.take 6
  | finalVerifying       => ModificationEvent.pipeline.take 7
  | readyToPublish       => ModificationEvent.pipeline
  | published            => ModificationEvent.pipeline
  | verificationBlocked  => []

-- The back edges land on states that have less of the pipeline behind them.
theorem ModificationEvent.target_passed {e : ModificationEvent} {s : ModificationState}
    (ha : some s ∈ e.allowed) (hr : e.restarts = false) :
    e.target.passed.Sublist (s.passed ++ [e]) := by
  revert s
  cases e <;> simp [restarts] at hr <;> intro s ha <;>
    simp only [allowed, List.mem_cons, List.not_mem_nil, or_false, Option.some.injEq] at ha
  all_goals first | subst ha; decide | rcases ha with rfl | rfl <;> decide

theorem ModificationEvent.restarts_target {e : ModificationEvent} (hr : e.restarts = true) :
    e.target = .testAuthoring := by
  cases e <;> first | rfl | cases hr

theorem ModificationEvent.restarts_of_none_mem {e : ModificationEvent} (ha : none ∈ e.allowed) :
    e.restarts = true := by
  cases e <;> simp [allowed] at ha
  rfl

-- The events since the last restart contain these events in this order.
structure SinceRestart (log : List EventRow) (events : List ModificationEvent) : Prop where
  intro ::
  split : ∃ pre restart post, log = pre ++ restart :: post ∧ restart.event.restarts = true ∧
    (∀ row ∈ post, row.event.restarts = false) ∧ events.Sublist (post.map (·.event))

namespace SinceRestart

variable {log : List EventRow} {events : List ModificationEvent} {row : EventRow}

theorem restart (h : row.event.restarts = true) : SinceRestart (log ++ [row]) [] :=
  ⟨log, row, [], rfl, h, by simp, .slnil⟩

theorem concat (s : SinceRestart log events) (h : row.event.restarts = false) :
    SinceRestart (log ++ [row]) (events ++ [row.event]) := by
  have ⟨pre, restart, post, hs, hr, hp, hsub⟩ := s
  refine ⟨pre, restart, post ++ [row], by simp [hs], hr, ?_, ?_⟩
  · simp only [List.mem_append, List.mem_singleton]
    rintro row' (hm | rfl)
    · exact hp row' hm
    · exact h
  · simpa using hsub.append (.refl [row.event])

theorem mono {events' : List ModificationEvent} (s : SinceRestart log events)
    (h : events'.Sublist events) : SinceRestart log events' := by
  have ⟨pre, restart, post, hs, hr, hp, hsub⟩ := s
  exact ⟨pre, restart, post, hs, hr, hp, h.trans hsub⟩

end SinceRestart

-- The log of a node and the workflow row of the node tell one story.
structure Logged (db : Db) (nodeId : String) : Prop where
  revision : db.revisionOf nodeId = (db.eventsOf nodeId).length
  chain    : (db.eventsOf nodeId).IsChain fun e₁ e₂ => e₂.fromState = some e₁.toState
  state    : db.stateOf nodeId = (db.eventsOf nodeId).getLast?.map (·.toState)
  passed   : ∀ s ∈ db.stateOf nodeId, SinceRestart (db.eventsOf nodeId) s.passed
  numbered : (db.eventsOf nodeId).map (·.revision) = List.range' 1 (db.eventsOf nodeId).length

namespace Logged

variable {db : Db} {nodeId : String} {row : EventRow}

-- The events of a node are numbered by the revisions they led to.
theorem getLast?_iff (hl : Logged db nodeId) (hm : row ∈ db.eventsOf nodeId) :
    (db.eventsOf nodeId).getLast? = some row ↔ row.revision = db.revisionOf nodeId := by
  have ⟨i, hi, he⟩ := List.mem_iff_getElem.mp hm
  have key {j : Nat} (hj : j < (db.eventsOf nodeId).length) :
      ((db.eventsOf nodeId)[j]).revision = j + 1 := by
    have hn := congrArg (·[j]?) hl.numbered
    simp [hj] at hn
    omega
  have hrow : row.revision = i + 1 := he ▸ key hi
  rw [hl.revision, hrow, List.getLast?_eq_getElem?]
  constructor
  · intro hlast
    have ⟨hj, hr⟩ := List.getElem?_eq_some_iff.mp hlast
    have := key hj
    rw [hr, hrow] at this
    omega
  · intro hlen
    have hj : (db.eventsOf nodeId).length - 1 = i := by omega
    rw [hj, List.getElem?_eq_getElem hi, he]

end Logged

namespace Db

variable {db db' : Db} {a : Action} {row : EventRow} {next : Option String} {nodeId : String}

namespace Appends

theorem eventsOf (h : Appends db row next db') (n : String) :
    db'.eventsOf n = if n = row.nodeId then db.eventsOf n ++ [row] else db.eventsOf n := by
  simp only [Db.eventsOf, h.events_eq, List.filter_append]
  split
  case isTrue hn  => simp [hn]
  case isFalse hn => simp [Ne.symm hn]

theorem stateOf (h : Appends db row next db') (n : String) :
    db'.stateOf n = if n = row.nodeId then some row.toState else db.stateOf n := by
  simp only [Db.stateOf, h.workflow_eq]
  split <;> rfl

theorem revisionOf (h : Appends db row next db') (n : String) :
    db'.revisionOf n = if n = row.nodeId then row.revision else db.revisionOf n := by
  simp only [Db.revisionOf, h.workflow_eq]
  split <;> rfl

theorem contractOf (h : Appends db row next db') (n : String) :
    db'.contractOf n = if n = row.nodeId then next else db.contractOf n := by
  simp only [Db.contractOf, h.workflow_eq]
  split <;> rfl

theorem logged (h : Appends db row next db') (hl : Logged db nodeId) : Logged db' nodeId := by
  by_cases hn : nodeId = row.nodeId
  case neg =>
    constructor <;> simp only [h.eventsOf, h.stateOf, h.revisionOf, hn, if_false]
    exacts [hl.revision, hl.chain, hl.state, hl.passed, hl.numbered]
  case pos =>
    subst hn
    constructor <;> simp only [h.eventsOf, h.stateOf, h.revisionOf, if_true]
    case revision => simp [h.revision_eq, hl.revision]
    case chain =>
      refine hl.chain.append (.singleton _) ?_
      intro last hlast e he
      cases he
      rw [← h.from_eq, hl.state, hlast]
      rfl
    case state => simp
    case passed =>
      intro s hs
      cases hs
      rw [h.to_eq]
      cases hr : row.event.restarts
      case true => exact ModificationEvent.restarts_target hr ▸ SinceRestart.restart hr
      case false =>
        cases hf : row.fromState
        case none =>
          have := ModificationEvent.restarts_of_none_mem (hf ▸ h.allowed)
          cases hr.symm.trans this
        case some s =>
          have hp := hl.passed s (h.from_eq.trans hf)
          exact (hp.concat hr).mono <| ModificationEvent.target_passed (hf ▸ h.allowed) hr
    case numbered =>
      rw [List.map_append, hl.numbered, List.map_singleton, h.revision_eq, hl.revision]
      rw [List.length_append, List.length_singleton, List.range'_1_concat, Nat.add_comm 1]

end Appends

theorem logged_congr (hw : db'.workflows = db.workflows) (he : db'.events = db.events)
    (hl : Logged db nodeId) : Logged db' nodeId := by
  have ht : db'.eventsOf nodeId = db.eventsOf nodeId := by rw [eventsOf, he, eventsOf]
  have hf : db'.workflow? nodeId = db.workflow? nodeId := by rw [workflow?, hw, workflow?]
  constructor <;> simp only [ht, stateOf, revisionOf, hf]
  exacts [hl.revision, hl.chain, hl.state, hl.passed, hl.numbered]

theorem logged_empty : Logged .empty nodeId where
  revision := rfl
  chain    := .nil
  state    := rfl
  passed   := by intro s hs; cases hs
  numbered := rfl

end Db

-- Both writers of the log append one transition; every other call leaves workflows and log alone.
theorem Effect.gate {db db' : Db} {a : Action} (h : Effect db a db') :
    (db'.workflows = db.workflows ∧ db'.events = db.events) ∨
      ∃ row next, Db.Appends db row next db' := by
  cases h
  case apply applied => exact .inr ⟨_, _, applied.toAppends⟩
  case block appends _ _ => exact .inr ⟨_, _, appends⟩
  case freeze hw he _ => exact .inl ⟨hw, he⟩
  case invalidate hw he _ => exact .inl ⟨hw, he⟩
  all_goals exact .inl ⟨rfl, rfl⟩

theorem Effect.logged {db db' : Db} {a : Action} {nodeId : String} (h : Effect db a db')
    (hl : Logged db nodeId) : Logged db' nodeId := by
  rcases h.gate with ⟨hw, he⟩ | ⟨_, _, ha⟩
  · exact Db.logged_congr hw he hl
  · exact ha.logged hl

section Gate

variable {sha256 : String → String} {acts : List Action} {db : Db}

theorem Reachable.logged (r : (system sha256).Reachable db) (nodeId : String) : Logged db nodeId := by
  refine r.invariant (I := (Logged · nodeId)) ?_ ?_
  · rintro _ rfl
    exact Db.logged_empty
  · rintro s₁ _ a _ hl ⟨⟩
    exact Db.after_effect.logged hl

-- A block whose event is in the log already violates the key of `modification_events`, so that the
-- whole deferral is rolled back.
theorem Db.blockVerificationWorkflow_existing {run : RunRow} {code : String} {existing : EventRow}
    (h : db.events.lookup (Db.retryExhaustedId run.runId) = some existing) :
    ∃ e, db.blockVerificationWorkflow run code = .error e := by
  cases hb : db.blockVerificationWorkflow run code
  case error e => exact ⟨e, rfl⟩
  case ok db' =>
    have ⟨_, _, _, _, ha⟩ := blockVerificationWorkflow_ok hb
    cases h.symm.trans ha.fresh

theorem Effect.defer_existing {db' : Db} {r token code : String} {now : Timestamp}
    {limit : Option Int} {existing : EventRow} (h : Effect db (.defer r token code now limit) db')
    (he : db.events.lookup (Db.retryExhaustedId r) = some existing) :
    db'.workflows = db.workflows ∧ db'.events = db.events := by
  cases h
  case none  => exact ⟨rfl, rfl⟩
  case defer => exact ⟨rfl, rfl⟩
  case block hr _ _ _ ha _ =>
    have hid := Db.run?_eq_some_iff.mp hr |>.right
    have := ha.fresh
    simp only [Db.retryExhaustedEvent, hid] at this
    cases he.symm.trans this

theorem tdd_gate (sha256 : String → String) (acts : List Action) (nodeId : String)
    (h : (system sha256).run .empty acts = some db) :
    db.revisionOf nodeId = (db.eventsOf nodeId).length ∧
    (db.eventsOf nodeId).IsChain (fun e₁ e₂ => e₂.fromState = some e₁.toState) ∧
    db.stateOf nodeId = (db.eventsOf nodeId).getLast?.map (·.toState) ∧
    (∀ eventId existing, db.events.lookup eventId = some existing →
      (∀ n event r payload, db.after sha256 (.apply n event eventId r payload) = db) ∧
      (∀ run code, eventId = Db.retryExhaustedId run.runId →
        ∃ e, db.blockVerificationWorkflow run code = .error e) ∧
      (∀ r token code now limit, eventId = Db.retryExhaustedId r →
        (db.after sha256 (.defer r token code now limit)).workflows = db.workflows ∧
        (db.after sha256 (.defer r token code now limit)).events = db.events)) ∧
    (db.stateOf nodeId = some .readyToPublish ∨ db.stateOf nodeId = some .published →
      SinceRestart (db.eventsOf nodeId) ModificationEvent.pipeline) := by
  have hl := Reachable.logged (.intro rfl h) nodeId
  refine ⟨hl.revision, hl.chain, hl.state, ?_, ?_⟩
  · intro eventId existing he
    refine ⟨?_, ?_, ?_⟩
    · intro n event r payload
      simp only [Db.after, Db.perform]
      rcases Db.apply_existing he with ⟨_, hr⟩ | ⟨_, hr, _⟩ <;> rw [hr] <;> rfl
    · rintro run code rfl
      exact Db.blockVerificationWorkflow_existing he
    · rintro r token code now limit rfl
      exact (Db.after_effect.defer_existing he)
  · rintro (hs | hs)
    · exact hl.passed _ hs
    · exact hl.passed _ hs

theorem tdd_gate_published :
    let db := Db.empty.afterAll Sample.sha256 Sample.publish
    db.stateOf "node" = some .published ∧
      SinceRestart (db.eventsOf "node") ModificationEvent.pipeline := by
  have hs : (Db.empty.afterAll Sample.sha256 Sample.publish).stateOf "node" = some .published := by
    decide +kernel
  have ⟨_, _, _, _, h⟩ := tdd_gate Sample.sha256 Sample.publish "node" system_run
  exact ⟨hs, h (.inr hs)⟩

end Gate
end Plan
