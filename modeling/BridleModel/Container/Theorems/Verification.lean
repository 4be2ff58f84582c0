import BridleModel.Container.Verification
import BridleModel.Library.Except

namespace Container

section Classification

variable {contract : FrozenTestContract} {results : List CommandEvidence} {r : RedClassificationResult}

theorem classifyResults_ne_infra (h : classifyResults contract results = .ok r) :
    r.classification ≠ .infraError := by
  have key : ∀ {c : RedClassificationResult}, (pure c : Except String _) = .ok r →
      c.classification ≠ .infraError → r.classification ≠ .infraError :=
    fun he hc => Except.ok.inj he ▸ hc
  simp only [classifyResults] at h
  split at h
  case isTrue => exact key h (by simp)
  split at h
  case isTrue => exact key h (by simp)
  split at h
  case isTrue => exact key h (by simp)
  split at h
  case isTrue => exact key h (by simp)
  obtain ⟨failed, -, h⟩ := Except.bind_eq_ok_iff.mp h
  split at h
  case isTrue => exact key h (by simp)
  obtain ⟨outcomes, -, h⟩ := Except.bind_eq_ok_iff.mp h
  split at h
  case isTrue => exact key h (by simp)
  split at h
  case isTrue => exact key h (by simp)
  exact key h (by simp)

theorem observedId_resultItem {item : CommandResult} : (resultItem item).observedId = item.observedId := by
  simp only [resultItem, CommandEvidence.observedId]
  cases item.commandId with
  | none    => rfl
  | some id => by_cases h : id = "" <;> simp [Option.filter, h]

-- The classification does not see what the test backend makes of an empty command id.
theorem classifyResults_resultItem {items : List CommandResult} :
    classifyResults contract (items.map resultItem) = classifyResults contract (items.map (·.toCommandEvidence)) := by
  have ho : ∀ items : List CommandResult,
      (items.map resultItem).filterMap (·.observedId) =
        (items.map (·.toCommandEvidence)).filterMap (·.observedId) := by
    intro items
    simp only [List.filterMap_map]
    exact List.filterMap_congr fun item _ => observedId_resultItem
  have hc : (items.map resultItem).flatMap (·.collectionErrors) =
      (items.map (·.toCommandEvidence)).flatMap (·.collectionErrors) := by
    simp only [List.flatMap_map]
    rfl
  have hr : (items.map resultItem).flatMap (·.caseResults) =
      (items.map (·.toCommandEvidence)).flatMap (·.caseResults) := by
    simp only [List.flatMap_map]
    rfl
  simp only [classifyResults, ho, hc, hr]

theorem classify_untimed (ht : ∀ item ∈ results, item.timedOut = false) :
    classifyRedVerification contract { errorCode := none, results } = classifyResults contract results := by
  have hn : ¬(results.any (·.timedOut) ∨ isInfrastructureError (Option.getD none "")) := by
    have hc : isInfrastructureError (Option.getD none "") = false := by decide
    simp only [List.any_eq_true, hc, Bool.false_eq_true, or_false, not_exists, not_and]
    intro item hi
    simp [ht item hi]
  simp only [classifyRedVerification, if_neg hn]

theorem classify_infra (contract : FrozenTestContract) (results : List CommandEvidence) {errorCode : String} (h : isInfrastructureError errorCode = true) :
    ∃ r, classifyRedVerification contract { errorCode := some errorCode, results } = .ok r ∧
      r.classification = .infraError := by
  have hi : results.any (·.timedOut) ∨ isInfrastructureError errorCode := .inr h
  simp only [classifyRedVerification, Option.getD_some, if_pos hi]
  exact ⟨_, rfl, rfl⟩

end Classification

section Commands

variable {request : Request} {ran : Nat → Ran} {cmds : List TestCommandSnapshot} {results : List CommandResult}
  {exitCode : Int}

-- In a red run the loop ends early only by a timeout, and its exit code is that of the last command that failed.
theorem runCommands_red (ran : Nat → Ran) (results : List CommandResult) (exitCode : Int)
    (hr : request.redVerification = true)
    (ha : ∀ cmd ∈ cmds, cmd.argv ≠ [] ∧ cmd.commandId ∈ request.commands.map (·.commandId))
    (ht : ∀ i < cmds.length, (ran (results.length + i)).timedOut = false)
    (he : -64 ≤ exitCode ∧ exitCode < 256) :
    ∃ code, -64 ≤ code ∧ code < 256 ∧
      runCommands request ran cmds results exitCode =
        .ok (results ++ cmds.mapIdx (fun i cmd => commandResult cmd (ran (results.length + i))), code) ∧
      (code = 0 ↔ exitCode = 0 ∧ ∀ i < cmds.length, (ran (results.length + i)).returnCode.val = 0) := by
  induction cmds generalizing results exitCode with
  | nil            => exact ⟨exitCode, he.1, he.2, by simp [runCommands], by simp⟩
  | cons cmd tl hi =>
    let result := commandResult cmd (ran results.length)
    have hcmd : ¬(cmd.argv = [] ∨ cmd.commandId ∉ request.commands.map (·.commandId)) := by
      have := ha cmd List.mem_cons_self
      simp [this]
    have hto : result.timedOut = false := ht 0 (by simp)
    have htl : ∀ i < tl.length, (ran ((results ++ [result]).length + i)).timedOut = false := by
      intro i hl
      have := ht (i + 1) (by simpa using hl)
      simpa [Nat.add_assoc, Nat.add_comm 1 i] using this
    have hall := fun c hc => ha c (List.mem_cons_of_mem _ hc)
    have hres : ∀ ran' : Nat → Ran,
        results ++ [commandResult cmd (ran' results.length)] ++
          tl.mapIdx (fun i cmd => commandResult cmd (ran' (results.length + 1 + i))) =
        results ++ (cmd :: tl).mapIdx (fun i cmd => commandResult cmd (ran' (results.length + i))) := by
      intro ran'
      simp [List.mapIdx_cons, Nat.add_assoc, Nat.add_comm 1]
    have hcodes : (∀ i < (cmd :: tl).length, (ran (results.length + i)).returnCode.val = 0) ↔
        result.exitCode = 0 ∧
          ∀ i < tl.length, (ran ((results ++ [result]).length + i)).returnCode.val = 0 := by
      constructor
      case mp =>
        intro h
        refine ⟨h 0 (by simp), fun i hl => ?_⟩
        have := h (i + 1) (by simpa using hl)
        simpa [Nat.add_assoc, Nat.add_comm 1 i] using this
      case mpr =>
        intro ⟨h₀, h⟩ i hl
        cases i with
        | zero   => exact h₀
        | succ i =>
          have := h i (by simpa using hl)
          simpa [Nat.add_assoc, Nat.add_comm 1 i] using this
    by_cases hz : result.exitCode = 0
    case pos =>
      obtain ⟨code, hlo, hhi, hrun, hcode⟩ := hi _ _ hall htl he
      refine ⟨code, hlo, hhi, ?_, ?_⟩
      · rw [runCommands, if_neg hcmd]
        simp only [hz, ne_eq, not_true_eq_false, hto, Bool.false_eq_true, or_self, ↓reduceIte, result] at hrun ⊢
        rw [hrun, ← hres ran]
        simp
      · rw [hcode, hcodes]
        simp [hz]
    case neg =>
      have hrange : -64 ≤ result.exitCode ∧ result.exitCode < 256 := (ran results.length).returnCode.property
      obtain ⟨code, hlo, hhi, hrun, hcode⟩ := hi _ _ hall htl hrange
      refine ⟨code, hlo, hhi, ?_, ?_⟩
      · rw [runCommands, if_neg hcmd]
        simp only [hz, ne_eq, not_false_eq_true, true_or, hto, hr, ↓reduceIte, Bool.false_eq_true,
          not_true_eq_false, or_self, result] at hrun ⊢
        rw [hrun, ← hres ran]
        simp
      · rw [hcode, hcodes]
        simp [hz]

end Commands

section Run

-- A red run in which every command of the request ran to its end and nothing but the tests can have failed.
structure RanAll (policyErrors : String → List String) (commands : List String) (t : Transaction) (slot : Slot)
    (request : Request) (runId candidateRel : String) : Prop where
  permitted : ∀ cmd ∈ commands, policyErrors cmd = []
  prepared  : t.prepared = .ok ()
  acquired  : ∃ containerId, t.acquired = .ok containerId
  executed  : t.execution = .exited slot
  collected : t.collected = true
  runId     : slot.runId = runId
  leased    : ∃ lease, slot.lease = some lease ∧ lease.candidateRel = candidateRel ∧
    (Python.strip slot.leaseToken = "" ∨ lease.token = Python.strip slot.leaseToken)
  requested : slot.request = .ok request
  red       : request.redVerification = true
  commands  : ∀ cmd ∈ request.commands, cmd.argv ≠ []
  untimed   : ∀ i < request.commands.length, (slot.ran i).timedOut = false
  intact    : request.baseline.all (· = slot.baseline) ∧ request.mocks.all (· = slot.mocks) ∧
    slot.baseline = slot.baselineAfter ∧ slot.mocks = slot.mocksAfter
  inScope   : outOfScope request slot = []

-- The results of the commands, one for each, in order.
def produced (request : Request) (slot : Slot) : List CommandResult :=
  request.commands.mapIdx fun i cmd => commandResult cmd (slot.ran i)

variable {policyErrors : String → List String} {commands : List String} {t : Transaction} {slot : Slot}
  {request : Request} {runId candidateRel : String} {code : Int}

theorem mem_produced {item : CommandResult} (h : item ∈ produced request slot) :
    ∃ i < request.commands.length, item.timedOut = (slot.ran i).timedOut := by
  obtain ⟨i, hi, rfl⟩ := List.mem_mapIdx.mp h
  exact ⟨i, hi, rfl⟩

theorem RanAll.exit (h : RanAll policyErrors commands t slot request runId candidateRel) :
    ∃ code, -64 ≤ code ∧ code < 256 ∧
      (code = 0 ↔ ∀ i < request.commands.length, (slot.ran i).returnCode.val = 0) ∧
      runActiveSlotTask slot =
        emitTaskResult slot (taskManifest request slot (some candidateRel) (produced request slot) code) code
          (some candidateRel) := by
  obtain ⟨lease, hl, rfl, ht⟩ := h.leased
  obtain ⟨hb, hm, hba, hma⟩ := h.intact
  have hallowed : ∀ cmd ∈ request.commands,
      cmd.argv ≠ [] ∧ cmd.commandId ∈ request.commands.map (·.commandId) :=
    fun cmd hc => ⟨h.commands cmd hc, List.mem_map_of_mem hc⟩
  obtain ⟨code, hlo, hhi, hrun, hcode⟩ :=
    runCommands_red slot.ran [] 0 h.red hallowed
      (by simpa using h.untimed) (by decide)
  simp only [List.length_nil, Nat.zero_add, List.nil_append, true_and] at hrun hcode
  refine ⟨code, hlo, hhi, hcode, ?_⟩
  have htoken : ¬(Python.strip slot.leaseToken ≠ "" ∧ slot.lease.all (·.token ≠ Python.strip slot.leaseToken)) := by
    cases ht with
    | inl ht => simp [ht]
    | inr ht => simp [hl, ht]
  have hbase : request.baseline.any (· ≠ slot.baseline) = false := by
    cases hr : request.baseline with
    | none   => rfl
    | some b => simpa [hr] using hb
  have hmock : request.mocks.any (· ≠ slot.mocks) = false := by
    cases hr : request.mocks with
    | none   => rfl
    | some b => simpa [hr] using hm
  have hafter : ¬(slot.baseline ≠ slot.baselineAfter ∨ slot.mocks ≠ slot.mocksAfter) := by
    simp [hba, hma]
  have hexit : (taskManifest request slot (some lease.candidateRel) (produced request slot) code).exitCode = code := by
    simp [taskManifest, h.inScope]
  calc runActiveSlotTask slot
    _ = runTaskAtLayout slot lease.candidateRel := by
      simp only [runActiveSlotTask]
      rw [if_neg htoken, hl]
    _ = emitTaskResult slot (taskManifest request slot (some lease.candidateRel) (produced request slot) code)
          (taskManifest request slot (some lease.candidateRel) (produced request slot) code).exitCode
          (some lease.candidateRel) := by
      simp only [runTaskAtLayout, h.requested, hbase, hmock, hrun, if_neg hafter, Bool.false_eq_true, if_false, produced]
    _ = _ := by rw [hexit]

theorem status_eq_zero (hlo : -64 ≤ code) (hhi : code < 256) : code % 256 = 0 ↔ code = 0 := by
  omega

theorem accepted_built {m : Manifest} (emitted runId candidateRel : String) (hs : m.schema = resultSchema) (hm : m.exitCode = code) :
    (do
      let e ← parseControlEnvelope [.control (buildControlEnvelope m emitted (some candidateRel) code)] runId candidateRel
      acceptControlEvidence e (some code) runId candidateRel) =
    if emitted = runId then .ok (buildControlEnvelope m emitted (some candidateRel) code)
    else .error "control_envelope_run_mismatch" := by
  have hv : validateEnvelopeStructure (buildControlEnvelope m emitted (some candidateRel) code) =
      .ok (buildControlEnvelope m emitted (some candidateRel) code) := by
    simp [validateEnvelopeStructure, buildControlEnvelope, hs, hm]
  have hb : validateBinding (buildControlEnvelope m emitted (some candidateRel) code) runId candidateRel =
      if emitted = runId then .ok (buildControlEnvelope m emitted (some candidateRel) code)
      else .error "control_envelope_run_mismatch" := by
    by_cases hr : emitted = runId <;> simp [validateBinding, buildControlEnvelope, hr]
  have hp : parseControlEnvelope [.control (buildControlEnvelope m emitted (some candidateRel) code)] runId
      candidateRel = validateBinding (buildControlEnvelope m emitted (some candidateRel) code) runId candidateRel := by
    simp [parseControlEnvelope, lastControl, hv, bind, Except.bind]
  rw [hp, hb]
  by_cases hr : emitted = runId
  case neg => simp [hr, bind, Except.bind]
  case pos =>
    simp only [hr, if_true] at hb hv ⊢
    simp only [acceptControlEvidence, hv, hb, bind, Except.bind]
    simp [buildControlEnvelope, hm]

-- A run with a failing command ends in the transaction; its envelope is never read.
theorem RanAll.failed (h : RanAll policyErrors commands t slot request runId candidateRel)
    (hc : ¬∀ i < request.commands.length, (slot.ran i).returnCode.val = 0) :
    runTests policyErrors commands t runId candidateRel =
      some { status := .failed, errorCode := some "container_exit_failed"
             results := resultsFromError "container_exit_failed" } := by
  obtain ⟨code, hlo, hhi, hcode, hexit⟩ := h.exit
  obtain ⟨containerId, hacq⟩ := h.acquired
  have hs : code % 256 ≠ 0 := by
    rw [ne_eq, status_eq_zero hlo hhi, hcode]
    exact hc
  have hp : ¬(commands.any fun cmd => policyErrors cmd ≠ []) := by
    simpa using h.permitted
  have hn : nonzeroExit (exitResult (runActiveSlotTask slot)) = true := by
    simp [hexit, nonzeroExit, exitResult, emitTaskResult, hs]
  have hexec : execTask t =
      .error { kind := .exec false true, exitCode := (exitResult (runActiveSlotTask slot)).exitCode } := by
    simp only [execTask, h.executed, hn, if_true]
  have htrans : runCandidateTestTransaction t = .error (some "container_exit_failed") := by
    simp [runCandidateTestTransaction, runModuleTransaction, h.prepared, hacq, hexec, TransactionFailure.raised,
      h.collected, primaryErrorCode]
  have htests : runTestsInCandidate t runId candidateRel = .error (some "container_exit_failed") := by
    rw [runTestsInCandidate, htrans]
    rfl
  rw [runTests, if_neg hp, htests]

theorem RanAll.passed (h : RanAll policyErrors commands t slot request runId candidateRel)
    (hc : ∀ i < request.commands.length, (slot.ran i).returnCode.val = 0) :
    runTests policyErrors commands t runId candidateRel =
      if Python.strip runId = runId then
        some { status := .completed, errorCode := none, results := (produced request slot).map resultItem }
      else
        some { status := .failed, errorCode := some "control_envelope_run_mismatch"
               results := resultsFromError "control_envelope_run_mismatch" } := by
  obtain ⟨code, hlo, hhi, hcode, hexit⟩ := h.exit
  obtain ⟨containerId, hacq⟩ := h.acquired
  have hz : code = 0 := hcode.mpr hc
  subst hz
  have hp : ¬(commands.any fun cmd => policyErrors cmd ≠ []) := by
    simpa using h.permitted
  have hn : nonzeroExit (exitResult (runActiveSlotTask slot)) = false := by
    simp [hexit, nonzeroExit, exitResult, emitTaskResult]
  have hexec : execTask t = .ok (exitResult (runActiveSlotTask slot)) := by
    simp only [execTask, h.executed, hn, Bool.false_eq_true, if_false]
  have htrans : runCandidateTestTransaction t = .ok (containerId, exitResult (runActiveSlotTask slot)) := by
    simp [runCandidateTestTransaction, runModuleTransaction, h.prepared, hacq, hexec, h.collected, hn]
  let manifest := taskManifest request slot (some candidateRel) (produced request slot) 0
  have hstatus : manifest.status = .completed := by
    simp [manifest, taskManifest, h.inScope]
  have hmcode : manifest.exitCode = 0 := by
    simp [manifest, taskManifest, h.inScope]
  have hstdout : (exitResult (runActiveSlotTask slot)).stdout =
      [.control (buildControlEnvelope manifest (Python.strip runId) (some candidateRel) 0)] := by
    simp [hexit, exitResult, emitTaskResult, h.runId, manifest]
  have hcode : (exitResult (runActiveSlotTask slot)).exitCode = some 0 := by
    simp [hexit, exitResult, emitTaskResult]
  have htests : runTestsInCandidate t runId candidateRel =
      if Python.strip runId = runId then .ok manifest else .error (some "control_envelope_run_mismatch") := by
    rw [runTestsInCandidate, htrans]
    simp only [bind, Except.bind, hstdout, hcode]
    have hacc := @accepted_built 0 manifest (Python.strip runId) runId candidateRel rfl hmcode
    simp only [bind, Except.bind] at hacc
    rw [hacc]
    by_cases hr : Python.strip runId = runId <;> simp [hr, buildControlEnvelope]
  rw [runTests, if_neg hp, htests]
  by_cases hr : Python.strip runId = runId
  case neg => simp [hr]
  case pos =>
    simp only [hr, if_true, hstatus, ne_eq, not_true_eq_false, if_false]
    rfl

-- The classification that is kept is that of the produced results exactly when every command passes.
theorem red_classified_iff {contract : FrozenTestContract}
    (h : RanAll policyErrors commands t slot request runId candidateRel) :
    (runTests policyErrors commands t runId candidateRel).map (attachRedClassification contract) =
      some (classifyRedVerification contract
        { errorCode := none, results := (produced request slot).map (·.toCommandEvidence) }) ↔
    (∀ i < request.commands.length, (slot.ran i).returnCode.val = 0) ∧ Python.strip runId = runId := by
  have huntimed : ∀ item ∈ produced request slot, item.timedOut = false := by
    intro item hi
    obtain ⟨i, hl, hi⟩ := mem_produced hi
    rw [hi, h.untimed i hl]
  have href : classifyRedVerification contract
        { errorCode := none, results := (produced request slot).map (·.toCommandEvidence) } =
      classifyResults contract ((produced request slot).map (·.toCommandEvidence)) := by
    refine classify_untimed ?_
    intro evidence he
    obtain ⟨item, hi, rfl⟩ := List.mem_map.mp he
    exact huntimed item hi
  -- A run that ends in a code of the infrastructure is not classified by its results.
  have hinfra : ∀ {errorCode : String}, isInfrastructureError errorCode = true →
      attachRedClassification contract
          { status := .failed, errorCode := some errorCode, results := resultsFromError errorCode } ≠
        classifyResults contract ((produced request slot).map (·.toCommandEvidence)) := by
    intro errorCode hc he
    obtain ⟨r, hr, hr'⟩ := classify_infra contract (resultsFromError errorCode) hc
    exact classifyResults_ne_infra (he.symm.trans hr) hr'
  rw [href]
  by_cases hc : ∀ i < request.commands.length, (slot.ran i).returnCode.val = 0
  case neg =>
    rw [h.failed hc, Option.map_some, Option.some.injEq]
    exact iff_of_false (hinfra (by decide)) fun hn => hc hn.1
  case pos =>
    rw [h.passed hc]
    by_cases hr : Python.strip runId = runId
    case neg =>
      rw [if_neg hr, Option.map_some, Option.some.injEq]
      exact iff_of_false (hinfra (by decide)) fun hn => hr hn.2
    case pos =>
      rw [if_pos hr, Option.map_some, Option.some.injEq]
      refine iff_of_true ?_ ⟨hc, hr⟩
      have hitems : ∀ item ∈ (produced request slot).map resultItem, item.timedOut = false := by
        intro evidence he
        obtain ⟨item, hi, rfl⟩ := List.mem_map.mp he
        exact huntimed item hi
      exact (classify_untimed hitems).trans classifyResults_resultItem

-- One contracted case, and one command that ends with the given return code after running it.
def caseContract : FrozenTestContract where
  cases                  := [{ caseId := "c1", nodeId := "test_a.py::test_a" }]
  commands               := [{ commandId := "k1", argv := ["pytest"], rawCommand := "pytest" }]
  expectedFailureCaseIds := ["c1"]
  cases_required         := by decide
  commands_required      := by decide
  expected_required      := by decide
  expected_known         := by decide

def caseRequest : Request where
  commands        := caseContract.commands
  writeSet        := []
  redVerification := true
  baseline        := some []
  mocks           := some []

def caseSlot (returnCode : ReturnCode) (outcome : String) (failureType : Option String) : Slot where
  leaseToken    := "t1"
  runId         := "r1"
  lease         := some { candidateRel := "a1", runId := "r1", token := "t1" }
  request       := .ok caseRequest
  baseline      := []
  mocks         := []
  project       := []
  baselineAfter := []
  mocksAfter    := []
  projectAfter  := []
  ran           := fun _ => {
    returnCode
    stdout           := ""
    stderr           := ""
    timedOut         := false
    caseResults      := [{ nodeId := "test_a.py::test_a", outcome, phase := "call", failureType }]
    collectionErrors := []
  }

def caseTransaction (slot : Slot) : Transaction where
  prepared  := .ok ()
  acquired  := .ok "container"
  execution := .exited slot
  collected := true

theorem ranAll_case {returnCode : ReturnCode} {outcome : String} {failureType : Option String} :
    RanAll (fun _ => []) ["pytest"] (caseTransaction (caseSlot returnCode outcome failureType))
      (caseSlot returnCode outcome failureType) caseRequest "r1" "a1" where
  permitted := by simp
  prepared  := rfl
  acquired  := ⟨"container", rfl⟩
  executed  := rfl
  collected := rfl
  runId     := rfl
  leased    := ⟨_, rfl, rfl, .inr (show "t1" = Python.strip "t1" by decide)⟩
  requested := rfl
  red       := rfl
  commands  := by decide
  untimed   := by simp [caseSlot]
  intact    := ⟨rfl, rfl, rfl, rfl⟩
  inScope   := by simp [outOfScope, changedPaths, caseSlot, sortedSet]

theorem red_classified_case :
    (runTests (fun _ => []) ["pytest"] (caseTransaction (caseSlot ⟨0, by decide⟩ "passed" none)) "r1" "a1").map
        (attachRedClassification caseContract) =
      some (classifyRedVerification caseContract
        { errorCode := none
          results   := (produced caseRequest (caseSlot ⟨0, by decide⟩ "passed" none)).map (·.toCommandEvidence) }) :=
  (red_classified_iff ranAll_case).mpr ⟨by simp [caseSlot], by decide⟩

-- The expected case fails by its assertion, as it should; the run counts as an infrastructure error.
theorem red_misclassified :
    RanAll (fun _ => []) ["pytest"] (caseTransaction (caseSlot ⟨1, by decide⟩ "failed" "AssertionError"))
        (caseSlot ⟨1, by decide⟩ "failed" "AssertionError") caseRequest "r1" "a1" ∧
      classifyRedVerification caseContract
        { errorCode := none
          results   := (produced caseRequest (caseSlot ⟨1, by decide⟩ "failed" "AssertionError")).map
            (·.toCommandEvidence) } =
        .ok { classification := .expectedRed, errorCode := "expected_red", failedCaseIds := ["c1"] } ∧
      (runTests (fun _ => []) ["pytest"] (caseTransaction (caseSlot ⟨1, by decide⟩ "failed" "AssertionError")) "r1"
          "a1").map (attachRedClassification caseContract) =
        some (.ok { classification := .infraError, errorCode := "container_exit_failed" }) :=
  ⟨ranAll_case, by decide, by decide⟩

end Run
end Container
