import BridleModel.Orchestrator.Worker
import BridleModel.Plan.Theorems.Gate
import BridleModel.Plan.Theorems.Run

open Plan

namespace Orchestrator

section EventIds

theorem startedId_injective {r r' : String} (h : startedId r = startedId r') : r = r' := by
  have h := congrArg String.toList h
  simp only [startedId, String.toList_append, List.append_assoc, List.append_cancel_left_eq,
    List.append_cancel_right_eq] at h
  exact String.toList_injective h

-- Two texts that end differently differ.
theorem append_ne {a b s t : String} (hs : s.toList.length ≤ t.toList.length)
    (h : ¬s.toList <:+ t.toList) : a ++ s ≠ b ++ t := by
  intro he
  have he := congrArg String.toList he
  simp only [String.toList_append] at he
  have hb : t.toList <:+ a.toList ++ s.toList := he ▸ List.suffix_append ..
  exact h <| List.suffix_of_suffix_length_le (List.suffix_append ..) hb hs

theorem startedId_ne_resultId {r r' : String} : startedId r ≠ resultId r' :=
  Ne.symm <| append_ne (by decide) (by decide)

theorem startedId_ne_retryExhaustedId {r r' : String} : startedId r ≠ Db.retryExhaustedId r' :=
  append_ne (by decide) (by decide)

theorem startedId_reserved {r : String} : "verification:".toList <+: (startedId r).toList := by
  simp only [startedId, String.toList_append, List.append_assoc]
  exact List.prefix_append ..

end EventIds

theorem startEvent_target {phase : Phase} : (startEvent phase).target = phase.gate := by
  cases phase <;> rfl

-- This event of the log is the start of the run `r`.
def Starts (db : Db) (row : EventRow) (r : String) : Prop :=
  ∃ run, db.run? r = some run ∧ row.nodeId = run.nodeId ∧ row.toState = run.phase.gate ∧
    row.revision = run.sourceRevision + 1

-- The event IDs of starts are used for starts only, and at the revision that the run was derived from.
def Disciplined (db : Db) : Action → Prop
  | .apply n e id expected _ => ∀ r, id = startedId r → ∃ run, db.run? r = some run ∧
      n = run.nodeId ∧ e = startEvent run.phase ∧ expected = some (run.sourceRevision : Int)
  | _ => True

def Guarantee (db db' : Db) : Prop :=
  ∃ a, Effect db a db' ∧ Disciplined db a

structure StoreInvariant (db : Db) : Prop where
  logged : ∀ n, Logged db n
  starts : ∀ row ∈ db.events.rows, ∀ r, row.eventId = startedId r → Starts db row r

-- A worker that is about to apply a start event holds a run derived from the workflow row it read.
def WorkerInvariant (db : Db) : Worker → Prop
  | .starting workflow phase run => ∃ v row, db.run? run.runId = some row ∧
      row.source = .source workflow.nodeId phase workflow.revision v
  | _ => True

namespace Guarantee

variable {db db' : Db} {r : String} {row : RunRow}

theorem refl : Guarantee db db :=
  ⟨.claim "" 0 0 "", .none, trivial⟩

theorem source (g : Guarantee db db') (hr : db.run? r = some row) :
    ∃ row', db'.run? r = some row' ∧ row'.source = row.source := by
  have ⟨_, he, _⟩ := g
  exact (hr ▸ he.run_step r).source

theorem starts {event : EventRow} (g : Guarantee db db') (hs : Starts db event r) :
    Starts db' event r := by
  obtain ⟨run, hr, hn, he, hv⟩ := hs
  obtain ⟨run', hr', hsource⟩ := g.source hr
  simp only [RunRow.source, RunKey.source.injEq] at hsource
  obtain ⟨h₁, h₂, h₃, _⟩ := hsource
  exact ⟨run', hr', by rw [hn, h₁], by rw [he, h₂], by rw [hv, h₃]⟩

theorem store (g : Guarantee db db') (i : StoreInvariant db) : StoreInvariant db' where
  logged n := by
    have ⟨_, he, _⟩ := g
    exact he.logged (i.logged n)
  starts := by
    intro event hm r hid
    suffices hs : Starts db event r from g.starts hs
    have ⟨a, he, hd⟩ := g
    have old {rows : List EventRow} (hrows : db'.events.rows = db.events.rows ++ rows)
        (hnew : event ∈ rows → Starts db event r) : Starts db event r := by
      rw [hrows, List.mem_append] at hm
      exact hm.elim (i.starts event · r hid) hnew
    cases he
    case apply applied =>
      refine old applied.events_eq fun hnew => ?_
      cases List.mem_singleton.mp hnew
      have ⟨run, hr, hn, hev, hexp⟩ := hd r (applied.eventId_eq ▸ hid)
      have hrev : (run.sourceRevision : Int) = _ := applied.expected _ hexp
      refine ⟨run, hr, applied.nodeId_eq.trans hn, ?_, ?_⟩
      · rw [applied.to_eq, applied.event_eq, hev, startEvent_target]
      · rw [applied.revision_eq, applied.nodeId_eq, ← Int.ofNat_inj.mp hrev]
    case block happ _ _ =>
      refine old happ.events_eq fun hnew => ?_
      cases List.mem_singleton.mp hnew
      exact absurd hid.symm startedId_ne_retryExhaustedId
    case freeze hev _     => exact i.starts event (hev ▸ hm) r hid
    case invalidate hev _ => exact i.starts event (hev ▸ hm) r hid
    all_goals exact i.starts event hm r hid

theorem worker {w : Worker} (g : Guarantee db db') (h : WorkerInvariant db w) :
    WorkerInvariant db' w := by
  cases w
  case starting workflow phase run =>
    have ⟨v, row, hr, hs⟩ := h
    have ⟨row', hr', hs'⟩ := g.source hr
    exact ⟨v, row', hr', hs'.trans hs⟩
  all_goals trivial

end Guarantee

section Advance

variable {sha256 : String → String} {db db' : Db} {w : Worker} {input : Input}

theorem external_guarantee {a : Action} (h : external sha256 db a = some db') : Guarantee db db' := by
  unfold external at h
  split at h
  case h_1 =>
    split at h
    case isTrue => cases h
    case isFalse hp =>
      cases h
      refine ⟨_, Db.after_effect, ?_⟩
      rintro r rfl
      exact absurd startedId_reserved hp
  case h_4 => cases h
  all_goals cases h; exact ⟨_, Db.after_effect, trivial⟩

theorem Guarantee.of_perform (sha256 : String → String) {a : Action}
    (h : db.perform sha256 a = .ok db') (hd : Disciplined db a) : Guarantee db db' :=
  ⟨a, Db.perform_effect h, hd⟩

theorem enqueueFromTrigger_guarantee {workflow : WorkflowRow} {phase : Phase}
    {candidateId : Option String} {run : RunRow}
    (h : enqueueFromTrigger sha256 db workflow phase candidateId = some (db', run)) :
    Guarantee db db' ∧ WorkerInvariant db' (.starting workflow phase run) := by
  unfold enqueueFromTrigger at h
  split at h
  case h_3 v _ _ =>
    have he := Except.toOption_eq_some_iff.mp h
    have ⟨ph, hp, _, hs, _⟩ := Db.enqueueVerificationRun_cases he
    have hp : phase = ph := Phase.value_injective hp
    refine ⟨.of_perform sha256 (a := .enqueue _ _ _ _ _ _ _) (by rw [Db.perform, he]; rfl) trivial, ?_⟩
    exact ⟨v, run, Db.enqueueVerificationRun_run? he, hp ▸ hs⟩
  all_goals cases h

theorem applyStart_guarantee {workflow : WorkflowRow} {phase : Phase} {run : RunRow}
    {res : TransitionResult} (hw : WorkerInvariant db (.starting workflow phase run))
    (h : applyStart db workflow phase run = .ok (db', res)) : Guarantee db db' := by
  unfold applyStart at h
  refine .of_perform id (a := .apply _ _ _ _ _) (by rw [Db.perform, h]; rfl) ?_
  intro r hid
  have hr := startedId_injective hid
  subst hr
  obtain ⟨v, row, hrow, hs⟩ := hw
  simp only [RunRow.source, RunKey.source.injEq] at hs
  exact ⟨row, hrow, hs.1.symm, by rw [hs.2.1], by rw [hs.2.2.1]⟩

theorem applyAuthoritativeResult_guarantee {run : RunRow}
    (h : applyAuthoritativeResult db run = some db') : Guarantee db db' := by
  simp only [applyAuthoritativeResult, Option.bind_eq_bind, Option.bind_eq_some_iff] at h
  have ⟨outcome, _, event, _, h⟩ := h
  split at h
  case isFalse => cases h
  case isTrue =>
    have ⟨⟨db₁, res⟩, he, hres⟩ := Option.bind_eq_some_iff.mp h
    cases hres
    have he := Except.toOption_eq_some_iff.mp he
    refine .of_perform id (a := .apply _ _ _ _ _) (by rw [Db.perform, he]; rfl) ?_
    intro r hid
    exact absurd hid.symm startedId_ne_resultId

theorem advance_guarantee {w' : Worker} (hw : WorkerInvariant db w)
    (h : advance sha256 db w input = some (db', w')) : Guarantee db db' ∧ WorkerInvariant db' w' := by
  unfold advance at h
  split at h
  case h_1 => cases h; exact ⟨.refl, trivial⟩
  case h_2 nodeId =>
    repeat' split at h
    all_goals cases h; exact ⟨.refl, trivial⟩
  case h_3 => cases h; exact ⟨.refl, trivial⟩
  case h_4 =>
    split at h <;> cases h
    case h_1      => exact ⟨.refl, trivial⟩
    case h_2 he => exact enqueueFromTrigger_guarantee he
  case h_5 =>
    split at h
    case h_1 he => cases h; exact ⟨applyStart_guarantee hw he, trivial⟩
    case h_2 =>
      split at h <;> cases h
      all_goals exact ⟨.refl, trivial⟩
  case h_6 => split at h <;> cases h <;> exact ⟨.refl, trivial⟩
  case h_7 =>
    repeat' split at h
    all_goals cases h; exact ⟨.refl, trivial⟩
  case h_8 =>
    split at h <;> cases h
    case h_1 he => exact ⟨.of_perform sha256 (a := .claim _ _ _ _) (by rw [Db.perform, he]; rfl) trivial, trivial⟩
    case h_2    => exact ⟨.refl, trivial⟩
  case h_9 => split at h <;> cases h <;> exact ⟨.refl, trivial⟩
  case h_10 =>
    split at h <;> cases h
    case h_1 he => exact ⟨.of_perform sha256 (a := .renew _ _ _ _) (by rw [Db.perform, he]; rfl) trivial, trivial⟩
    case h_2    => exact ⟨.refl, trivial⟩
  case h_11 =>
    split at h
    case isTrue => cases h; exact ⟨.refl, trivial⟩
    case isFalse =>
      split at h <;> cases h
      case h_1 he => exact ⟨.of_perform sha256 (a := .complete _ _ _ _) (by rw [Db.perform, he]; rfl) trivial, trivial⟩
      case h_2    => exact ⟨.refl, trivial⟩
  case h_12 =>
    split at h
    case isTrue => cases h; exact ⟨.refl, trivial⟩
    case isFalse =>
      split at h <;> cases h
      case h_1 he => exact ⟨.of_perform sha256 (a := .defer _ _ _ _ _) (by rw [Db.perform, he]; rfl) trivial, trivial⟩
      case h_2    => exact ⟨.refl, trivial⟩
  case h_13 =>
    split at h <;> cases h
    case h_1    => exact ⟨.refl, trivial⟩
    case h_2 he => exact ⟨applyAuthoritativeResult_guarantee he, trivial⟩
  case h_14 => cases h

theorem orchestrator_invariant (sha256 : String → String) :
    (orchestrator sha256).Invariant StoreInvariant WorkerInvariant Guarantee where
  init h        := by
    cases h
    refine ⟨⟨fun _ => Db.logged_empty, ?_⟩, trivial⟩
    intro row hm
    cases hm
  environment _ := external_guarantee
  advance _     := advance_guarantee
  store i g     := g.store i
  stable _ g    := g.worker

end Advance

-- The run `r` opened the gate that the workflow of the node is in.
def OpenedBy (db : Db) (nodeId r : String) : Prop :=
  ∃ opening, ∃ phase : Phase, (db.eventsOf nodeId).getLast? = some opening ∧
    opening.eventId = startedId r ∧ opening.toState = phase.gate ∧
    db.stateOf nodeId = some phase.gate

-- The workflow is where the start of the run `r` has left it, by the revision from which the run was
-- derived.
def Current (db : Db) (nodeId r : String) : Prop :=
  (∃ opening ∈ db.eventsOf nodeId, opening.eventId = startedId r) ∧
    ∃ run, db.run? r = some run ∧ db.revisionOf nodeId = run.sourceRevision + 1

-- The transition from `db` to `db'` is the result of the run `r`.
def AppliesResult (db db' : Db) (nodeId r : String) : Prop :=
  ∃ row, db'.events.rows = db.events.rows ++ [row] ∧ row.eventId = resultId r ∧ row.nodeId = nodeId

theorem StoreInvariant.openedBy_iff {db : Db} {nodeId r : String} (i : StoreInvariant db) :
    OpenedBy db nodeId r ↔ Current db nodeId r := by
  have starts {opening : EventRow} (hm : opening ∈ db.eventsOf nodeId) :=
    i.starts opening (List.mem_filter.mp hm).1 r
  constructor
  · intro ⟨opening, phase, hlast, hid, _, _⟩
    have hm := List.mem_of_getLast? hlast
    have ⟨run, hr, _, _, hrev⟩ := starts hm hid
    exact ⟨⟨opening, hm, hid⟩, run, hr, ((i.logged nodeId).getLast?_iff hm).mp hlast ▸ hrev⟩
  · intro ⟨⟨opening, hm, hid⟩, run, hr, hrev⟩
    have ⟨run', hr', _, hto, hrev'⟩ := starts hm hid
    cases hr.symm.trans hr'
    have hlast := ((i.logged nodeId).getLast?_iff hm).mpr (hrev'.trans hrev.symm)
    refine ⟨opening, run.phase, hlast, hid, hto, ?_⟩
    rw [(i.logged nodeId).state, hlast, ← hto]
    rfl

abbrev initial : Processes.Configuration Db Worker where
  store     := .empty
  process _ := .idle

-- Worker 0 executes a run while the baseline expires and worker 1 opens the gate anew under another
-- contract. The verdict of worker 0 then counts for the new gate.
namespace Late

def run₁ : String :=
  "verify-14ed840374288e1c19eae0a7"

def run₂ : String :=
  "verify-2a81622a272d682164e891f9"

def verdict : VerificationResult where
  event     := .redConfirmed
  status    := "expected_red"
  errorCode := none
  summary   := []

def acts : List (Processes.Label Action Input) := [
  .environment Sample.freeze₁,
  .environment (.apply "node" .start "e1" none none),
  .environment (.apply "node" .testContractApproved "e2" none none),
  .environment (.apply "node" .redAllowed "e3" none none),
  .process 0 (.reconcile "node"),
  .process 0 .proceed,
  .process 0 .proceed,
  .process 0 .proceed,
  .process 0 .proceed,
  .process 0 (.claim 0 60 "token"),
  .process 0 .proceed,
  .environment (.apply "node" .baselineExpired "e5" none none),
  .environment Sample.freeze₂,
  .environment (.apply "node" .testContractApproved "e6" none none),
  .environment (.apply "node" .redAllowed "e7" none none),
  .process 1 (.reconcile "node"),
  .process 1 .proceed,
  .process 1 .proceed,
  .process 1 .proceed,
  .process 0 (.finish verdict 1000)
]

def lastEvent (c : Processes.Configuration Db Worker) : Option String :=
  (c.store.eventsOf "node").getLast?.map (·.eventId)

end Late

end Orchestrator
