import BridleModel.Container.Theorems.Verification
import BridleModel.Orchestrator.Executor

open Container Plan

namespace Orchestrator

section Entrypoint

variable {request : Request} {ran : Nat → Ran} {cmds : List TestCommandSnapshot} {results out : List CommandResult}
  {slot : Slot}

-- The results of the commands that the entrypoint has started.
def executed (slot : Slot) : List CommandResult :=
  match slot.request with
  | .error _    => []
  | .ok request =>
    match runCommands request slot.ran request.commands [] 0 with
    | .error results    => results
    | .ok (results, _) => results

-- A run other than a red one that ends with exit code 0 has run every command, or its last one timed out.
theorem runCommands_final (hr : request.redVerification = false)
    (h : runCommands request ran cmds results 0 = .ok (out, 0)) :
    (out = results ++ cmds.mapIdx (fun i cmd => commandResult cmd (ran (results.length + i))) ∧
      ∀ i < cmds.length,
        (ran (results.length + i)).returnCode.val = 0 ∧ (ran (results.length + i)).timedOut = false) ∨
    ∃ before item, out = before ++ [item] ∧ item.timedOut = true ∧
      ∃ cmd ∈ cmds, item.commandId = some cmd.commandId := by
  induction cmds generalizing results with
  | nil            => exact .inl ⟨by simpa [runCommands] using h.symm, by simp⟩
  | cons cmd tl hi =>
    simp only [runCommands] at h
    split at h
    case isTrue => cases h
    case isFalse =>
      let result := commandResult cmd (ran results.length)
      split at h
      case isTrue hf =>
        simp only [hr, Bool.false_eq_true, not_false_eq_true, or_true, if_true] at h
        obtain ⟨rfl, hz⟩ := Prod.mk.inj (Except.ok.inj h)
        have ht : result.timedOut = true := hf.resolve_left (not_not.mpr hz)
        exact .inr ⟨results, result, rfl, ht, cmd, List.mem_cons_self, rfl⟩
      case isFalse hp =>
        obtain ⟨hz, ht⟩ := not_or.mp hp
        have hz : (ran results.length).returnCode.val = 0 := not_not.mp hz
        have ht : (ran results.length).timedOut = false := Bool.eq_false_iff.mpr ht
        cases hi h with
        | inr h =>
          obtain ⟨before, item, ho, htime, cmd', hc, hid⟩ := h
          exact .inr ⟨before, item, ho, htime, cmd', List.mem_cons_of_mem _ hc, hid⟩
        | inl h =>
          obtain ⟨ho, hall⟩ := h
          refine .inl ⟨?_, fun i hl => ?_⟩
          · rw [ho]
            simp [List.mapIdx_cons, Nat.add_assoc, Nat.add_comm 1]
          · cases i with
            | zero   => exact ⟨hz, ht⟩
            | succ i =>
              have := hall i (by simpa using hl)
              simpa [Nat.add_assoc, Nat.add_comm 1 i] using this

variable (results slot) in
theorem writeFailure_stdout (errorCode : String) (exitCode : Int) :
    ∃ envelope, (writeFailure slot errorCode exitCode results).stdout = [.control envelope] ∧
      envelope.manifest.status = .failed :=
  ⟨_, rfl, rfl⟩

-- The one envelope that the entrypoint prints reports a completed task only for commands that ended with 0.
theorem runActiveSlotTask_stdout (hr : slot.request = .ok request) {line : Line}
    (hl : line ∈ (runActiveSlotTask slot).stdout) :
    ∃ envelope, (runActiveSlotTask slot).stdout = [.control envelope] ∧
      (envelope.manifest.status = .completed →
        runCommands request slot.ran request.commands [] 0 = .ok (envelope.manifest.results, 0)) := by
  have hfail {errorCode : String} {exitCode : Int} {results : List CommandResult} :
      ∃ envelope, (writeFailure slot errorCode exitCode results).stdout = [.control envelope] ∧
        (envelope.manifest.status = .completed →
          runCommands request slot.ran request.commands [] 0 = .ok (envelope.manifest.results, 0)) := by
    obtain ⟨envelope, he, hs⟩ := writeFailure_stdout results slot errorCode exitCode
    exact ⟨envelope, he, fun hc => by rw [hs] at hc; cases hc⟩
  simp only [runActiveSlotTask] at hl ⊢
  split
  case isTrue => exact hfail
  case isFalse hn =>
    rw [if_neg hn] at hl
    split
    case h_1 hnone => simp [hnone] at hl
    case h_2 lease _ =>
      simp only [runTaskAtLayout, hr]
      split
      case isTrue => exact hfail
      case isFalse =>
        split
        case isTrue => exact hfail
        case isFalse =>
          split
          case h_1 => exact hfail
          case h_2 results exitCode hrun =>
            split
            case isTrue => exact hfail
            case isFalse =>
              refine ⟨_, rfl, fun hc => ?_⟩
              simp only [buildControlEnvelope, taskManifest, ite_eq_left_iff] at hc
              by_cases hz : outOfScope request slot = [] ∧ exitCode = 0
              case neg => exact absurd (hc hz) (by simp)
              case pos => rw [hrun, hz.2]; rfl

end Entrypoint

section Report

variable {t : Transaction} {runId candidateRel containerId : String} {e e' : ControlEnvelope} {r : ExecResult}
  {stdout : List Line} {m : Manifest} {exitCode : Option Int}

theorem validateEnvelopeStructure_eq (h : validateEnvelopeStructure e = .ok e') : e' = e := by
  simp only [validateEnvelopeStructure] at h
  repeat' split at h
  all_goals cases h
  rfl

theorem validateBinding_eq (h : validateBinding e runId candidateRel = .ok e') : e' = e := by
  simp only [validateBinding] at h
  repeat' split at h
  all_goals cases h
  rfl

theorem parseControlEnvelope_eq (h : parseControlEnvelope stdout runId candidateRel = .ok e) :
    lastControl stdout = some e := by
  rw [parseControlEnvelope] at h
  split at h
  case h_1 => cases h
  case h_2 hl =>
    obtain ⟨e₁, h₁, h₂⟩ := Except.bind_eq_ok_iff.mp h
    rw [hl, validateBinding_eq h₂, validateEnvelopeStructure_eq h₁]

theorem acceptControlEvidence_eq (h : acceptControlEvidence e exitCode runId candidateRel = .ok e') : e' = e := by
  rw [acceptControlEvidence] at h
  obtain ⟨e₁, h₁, h⟩ := Except.bind_eq_ok_iff.mp h
  obtain ⟨e₂, h₂, h⟩ := Except.bind_eq_ok_iff.mp h
  repeat' split at h
  all_goals cases h
  rw [validateBinding_eq h₂, validateEnvelopeStructure_eq h₁]

theorem runModuleTransaction_exec (h : runModuleTransaction t = .ok (containerId, r)) : execTask t = .ok r := by
  rw [runModuleTransaction] at h
  split at h
  case h_1 => cases h
  case h_2 =>
    split at h
    case h_1 => cases h
    case h_2 => cases h
    case h_3 => cases h
    case h_4 =>
      split at h
      case h_1 => cases h
      case h_2 result hx =>
        split at h
        case isTrue  => rw [hx, (Prod.mk.inj (Except.ok.inj h)).2]
        case isFalse => cases h

theorem execTask_exited (h : execTask t = .ok r) :
    ∃ slot, t.execution = .exited slot ∧ r = exitResult (runActiveSlotTask slot) := by
  rw [execTask] at h
  split at h
  case h_1 => cases h
  case h_2 => cases h
  case h_3 slot hs =>
    simp only at h
    split at h
    case isTrue  => cases h
    case isFalse => exact ⟨slot, hs, (Except.ok.inj h).symm⟩

theorem transaction_exited (h : runCandidateTestTransaction t = .ok (containerId, r)) :
    ∃ slot, t.execution = .exited slot ∧ r = exitResult (runActiveSlotTask slot) := by
  rw [runCandidateTestTransaction] at h
  split at h
  case h_1 => cases h
  case h_2 => cases h
  case h_3 => cases h
  case h_4 hm =>
    split at h
    case isTrue  => cases h
    case isFalse =>
      cases h
      exact execTask_exited (runModuleTransaction_exec hm)

-- The manifest that the host accepts is the one in the last control line of the exec.
theorem runTestsInCandidate_manifest (h : runTestsInCandidate t runId candidateRel = .ok m) :
    ∃ slot e, t.execution = .exited slot ∧ lastControl (runActiveSlotTask slot).stdout = some e ∧ e.manifest = m := by
  rw [runTestsInCandidate] at h
  obtain ⟨⟨containerId, result⟩, htrans, h⟩ := Except.bind_eq_ok_iff.mp h
  obtain ⟨slot, hslot, rfl⟩ := transaction_exited htrans
  simp only at h
  split at h
  case h_1 => cases h
  case h_2 e hacc =>
    obtain ⟨e₁, h₁, h₂⟩ := Except.bind_eq_ok_iff.mp hacc
    refine ⟨slot, e₁, hslot, parseControlEnvelope_eq h₁, ?_⟩
    rw [← acceptControlEvidence_eq h₂]
    exact Except.ok.inj h

theorem completed_manifest {slot : Slot} {request : Request} (ht : t.execution = .exited slot)
    (hr : slot.request = .ok request) (h : runTestsInCandidate t runId candidateRel = .ok m)
    (hm : m.status = .completed) :
    runCommands request slot.ran request.commands [] 0 = .ok (m.results, 0) := by
  obtain ⟨slot', e, hs, hl, rfl⟩ := runTestsInCandidate_manifest h
  obtain rfl : slot' = slot := Execution.exited.inj (hs.symm.trans ht)
  cases hout : (runActiveSlotTask slot').stdout with
  | nil          => rw [hout] at hl; cases hl
  | cons line tl =>
    obtain ⟨e', he, hc⟩ := runActiveSlotTask_stdout hr (hout ▸ List.mem_cons_self : line ∈ (runActiveSlotTask slot').stdout)
    rw [he] at hl
    obtain rfl : e' = e := Option.some.inj hl
    exact hc hm

end Report

section Passed

variable {policyErrors : String → List String} {commands ids : List String} {t : Transaction}
  {runId candidateRel commandId : String} {a : Authoritative} {o : Outcomes} {item : CommandResult}

theorem note_timedOut (ht : item.timedOut = true) (hi : item.observedId = some commandId) :
    (o.note item).failed ≠ [] := by
  have hm : commandId ∈ (o.note item).failed := by
    simp [Outcomes.note, hi, ht]
  exact List.ne_nil_of_mem hm

-- Evidence with every required command comes from a completed manifest without a failed command.
theorem allRequiredPassed_manifest (h : runAuthoritativeTests policyErrors commands ids t runId candidateRel = some a)
    (hs : a.report.status = .completed) (hp : a.evidence.allRequiredPassed = true) :
    (∀ cmd ∈ commands, policyErrors cmd = []) ∧ ∃ m, runTestsInCandidate t runId candidateRel = .ok m ∧
      m.status = .completed ∧ (m.results.foldl Outcomes.note {}).failed = [] := by
  simp only [runAuthoritativeTests] at h
  split at h
  case isTrue => cases h; cases hs
  case isFalse hpol =>
    refine ⟨by simpa using hpol, ?_⟩
    split at h
    case h_1 => cases h
    case h_2 => cases h; cases hs
    case h_3 m hm =>
      split at h
      case isTrue => cases h; cases hs
      case isFalse hst =>
        cases h
        simp only [Outcomes.evidence, decide_eq_true_eq] at hp
        exact ⟨m, hm, not_not.mp hst, hp.1⟩

end Passed

-- What the test files, the cases and the commands of a contract ask of a run.
section Proves

-- Every frozen test file has its frozen hash in the tree.
def FilesFrozen (contract : Requirements) (tree : Hashes) : Prop :=
  ∀ f ∈ contract.testFiles, Assoc.get tree f.path = some f.sha256

-- Every contracted case was collected, and no result of it is other than passed.
def CasesPassed (contract : Requirements) (results : List CaseResult) : Prop :=
  ∀ c ∈ contract.cases,
    (∃ r ∈ results, r.nodeId = c.nodeId) ∧ ∀ r ∈ results, r.nodeId = c.nodeId → r.outcome = "passed"

-- The commands are those of the contract, with their ids and arguments.
def SameCommands (contract : Requirements) (commands : List (Option String × List String)) : Prop :=
  commands.Perm (contract.commands.map fun c => (some c.commandId, c.argv))

structure Proves (contract : Requirements) (tree : Hashes) (results : List CommandResult) : Prop where
  files    : FilesFrozen contract tree
  cases    : CasesPassed contract (results.flatMap (·.caseResults))
  commands : SameCommands contract (results.map fun r => (r.commandId, r.argv))
  passed   : ∀ r ∈ results, r.exitCode = 0 ∧ r.timedOut = false

end Proves

section Final

variable {policy : CommandPolicy} {sha256 : String → String} {manifests : List (Option Candidate)}
  {s : Surroundings} {run : RunRow} {contract : FrozenContract} {request : Candidate}
  {approved : List ContractCommand} {result : VerificationResult} {a : Authoritative}

theorem commandIdOf_ne_empty {testEntityId text : String} {mapSeq : Int} (hs : ∀ text, sha256 text ≠ "") :
    commandIdOf sha256 testEntityId mapSeq text ≠ "" := by
  intro h
  have hl := congrArg String.toList h
  rw [commandIdOf, String.toList_ofList, String.toList_empty, List.take_eq_nil_iff] at hl
  exact hl.elim (by decide) fun hn => hs _ (String.toList_eq_nil_iff.mp hn)

theorem compileCommands_ids {commands : List String} {testEntityId : String} {mapSeq : Int}
    (h : compileCommands policy sha256 commands testEntityId mapSeq = .ok approved) {cmd : ContractCommand}
    (hc : cmd ∈ approved) : ∃ text, cmd.commandId = commandIdOf sha256 testEntityId mapSeq text := by
  obtain ⟨text, _, ht⟩ := (Except.mem_of_mapM h).mp hc
  rw [compileCommand] at ht
  split at ht
  case h_1 => cases ht
  case h_2 =>
    obtain ⟨argv, _, ht⟩ := Except.bind_eq_ok_iff.mp ht
    cases ht
    exact ⟨text, rfl⟩

-- The steps of `execute` that a passed final run has taken.
theorem execute_passed (h : execute policy sha256 manifests s run contract = .ok result)
    (hp : result.event = .finalVerificationPassed) :
    ∃ request a, loadCandidateRequest manifests (run.candidateId.getD "") run.nodeId = .ok request ∧
      request.baseMapSeq = contract.mapSeq ∧ request.boundaryFingerprint = contract.boundaryFingerprint ∧
      request.imageVersion = contract.imageVersion ∧ run.phase = .final ∧
      authoritativeTests policy sha256 s run request contract = .ok a ∧
      a.report.status = .completed ∧ a.evidence.allRequiredPassed = true := by
  rw [execute] at h
  obtain ⟨request, hload, h⟩ := Except.bind_eq_ok_iff.mp h
  split at h
  case isTrue => cases h; cases hp
  case isFalse hc =>
    simp only [ne_eq, not_or, not_not] at hc
    obtain ⟨a, ha, h⟩ := Except.bind_eq_ok_iff.mp h
    obtain ⟨_, _, h⟩ := Except.bind_eq_ok_iff.mp h
    refine ⟨request, a, hload, hc.1, hc.2.1, hc.2.2, ?_⟩
    split at h
    case h_1 =>
      split at h
      case h_1 => cases h
      case h_2 c _ =>
        cases h
        simp only [redResult] at hp
        cases hcl : c.classification with
        | _ => rw [hcl] at hp; cases hp
    case h_2 hphase =>
      cases h
      simp only [finalResult, ite_eq_left_iff, decide_eq_true_eq] at hp
      have hok : a.report.status = .completed ∧ a.evidence.allRequiredPassed = true := by
        by_contra hn
        exact absurd (hp hn) (by simp)
      exact ⟨hphase, ha, hok⟩

theorem authoritativeTests_compiled (h : authoritativeTests policy sha256 s run request contract = .ok a)
    (hs : a.report.status = .completed) (hp : a.evidence.allRequiredPassed = true) :
    ∃ approved m,
      compileCommands policy sha256 (contract.commands.map (·.rawCommand)) run.nodeId request.baseMapSeq =
        .ok approved ∧
      runTestsInCandidate (s.transaction (stagedSlot s run request approved)) run.runId
        ("candidates/" ++ request.candidateId) = .ok m ∧
      m.status = .completed ∧ (m.results.foldl Outcomes.note {}).failed = [] := by
  simp only [authoritativeTests] at h
  split at h
  case h_1 => cases h
  case h_2 approved happ =>
    split at h
    case h_1 => cases h
    case h_2 a' ha =>
      obtain rfl := Except.ok.inj h
      obtain ⟨hpol, m, hm, hst, hf⟩ := allRequiredPassed_manifest ha hs hp
      rw [if_neg (by simpa using hpol)] at happ
      exact ⟨approved, m, happ, hm, hst, hf⟩

theorem transaction_execution {slot slot' : Slot} (h : (s.transaction slot).execution = .exited slot') :
    (s.transaction slot).execution = .exited slot := by
  simp only [Surroundings.transaction] at h ⊢
  split at h
  case h_1 => rfl
  case h_2 => cases h
  case h_3 => cases h

-- What is certain in a final run that passes: every compiled command ran, in order, and ended with 0.
theorem executed_passed (hsha : ∀ text, sha256 text ≠ "")
    (happ : compileCommands policy sha256 (contract.commands.map (·.rawCommand)) run.nodeId request.baseMapSeq =
      .ok approved) {m : Manifest}
    (hm : runTestsInCandidate (s.transaction (stagedSlot s run request approved)) run.runId
      ("candidates/" ++ request.candidateId) = .ok m)
    (hst : m.status = .completed) (hf : (m.results.foldl Outcomes.note {}).failed = []) (hphase : run.phase = .final) :
    executed (stagedSlot s run request approved) =
      approved.mapIdx (fun i cmd => commandResult cmd.toTestCommandSnapshot (s.ran i)) ∧
    ∀ i < approved.length, (s.ran i).returnCode.val = 0 ∧ (s.ran i).timedOut = false := by
  let slot := stagedSlot s run request approved
  obtain ⟨_, _, hx, _, _⟩ := runTestsInCandidate_manifest hm
  have hrun := completed_manifest (transaction_execution hx) rfl hm hst
  have hred : (requestManifest approved request.writeSet (run.phase = .red) request.trees).redVerification =
      false := by
    simp [requestManifest, hphase]
  have hout : executed slot = m.results := by
    simp only [executed, slot, stagedSlot, Surroundings.slot]
    simp only [stagedSlot, Surroundings.slot] at hrun
    rw [hrun]
  cases runCommands_final hred hrun with
  | inl hall =>
    obtain ⟨ho, hall⟩ := hall
    rw [hout, ho]
    simp only [requestManifest, List.length_map, List.length_nil, Nat.zero_add, List.nil_append, stagedSlot,
      Surroundings.slot] at hall ⊢
    refine ⟨?_, hall⟩
    rw [List.mapIdx_eq_iff]
    intro i
    rw [List.getElem?_mapIdx, List.getElem?_map, Option.map_map]
    rfl
  | inr hlast =>
    obtain ⟨before, item, ho, ht, cmd, hc, hid⟩ := hlast
    obtain ⟨c, hca, rfl⟩ := List.mem_map.mp hc
    obtain ⟨text, hci⟩ := compileCommands_ids happ hca
    have hobs : item.observedId = some c.commandId := by
      have hne : c.commandId ≠ "" := hci ▸ commandIdOf_ne_empty hsha
      simp [CommandEvidence.observedId, hid, Option.filter, hne]
    rw [ho, List.foldl_concat] at hf
    exact absurd hf (note_timedOut ht hobs)

end Final

namespace Rewritten

def policy : CommandPolicy where
  validate _       := []
  policyErrors _ _ := []
  split text       := .ok [text]

def sha256 (text : String) : String :=
  "#" ++ text

def requirements : Requirements where
  testFiles              := [⟨"tests/test_a.py", "frozen"⟩]
  cases                  := [⟨"case", "tests/test_a.py::test_a"⟩]
  commands               := [⟨⟨"#node:1:pytest", ["pytest"], "pytest"⟩, "node", 1⟩]
  expectedFailureCaseIds := ["case"]
  baselineHash           := "baseline"
  mapSeq                 := 1
  boundaryFingerprint    := "boundary"
  imageVersion           := "image"

def contract : FrozenContract where
  toRequirements := requirements
  normal         := by decide
  accepted       := by decide

-- An implementation turn has rewritten the test file, which is in the write set.
def candidate : Candidate where
  candidateId         := "candidate"
  nodeId              := "node"
  baseMapSeq          := 1
  boundaryFingerprint := "boundary"
  imageVersion        := "image"
  writeSet            := ["tests/test_a.py"]
  trees               := { project := [("tests/test_a.py", "rewritten")], baseline := [], mocks := [] }

-- The command ends with 0 and reports no case.
def surroundings : Surroundings where
  prepared      := .ok ()
  acquired      := .ok "container"
  ending        := .exited
  collected     := true
  leaseToken    := "token"
  lease         := some { candidateRel := "candidates/candidate", runId := "run", token := "token" }
  baselineAfter := []
  mocksAfter    := []
  projectAfter  := [("tests/test_a.py", "rewritten")]
  ran _         := {
    returnCode       := ⟨0, by decide⟩
    stdout           := ""
    stderr           := ""
    timedOut         := false
    caseResults      := []
    collectionErrors := []
  }

def run : RunRow :=
  RunRow.enqueued "run" "node" .final 1 "version" (some "candidate") 1

theorem passed : execute policy sha256 [some candidate] surroundings run contract = .ok {
    event     := .finalVerificationPassed
    status    := "passed"
    errorCode := none
    summary   := [
      ("executed_command_ids", .arr [.str "#node:1:pytest"]), ("failed_command_ids", .arr [])
    ]
  } := by
  rfl

theorem sha256_ne_empty (text : String) : sha256 text ≠ "" := by
  simp [sha256]

end Rewritten

end Orchestrator
