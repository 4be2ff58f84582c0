import Mathlib.Data.List.Forall2
import Mathlib.Data.List.Induction
import BridleModel.Container.Classification
import BridleModel.Library.Except

namespace Container

section Cases

variable {contract : FrozenTestContract} {caseResults : List CaseResult} {c : CaseResult} {id node : String}

-- Two cases of one node are one case: the compiler of the contract refuses others.
def FrozenTestContract.Functional (contract : FrozenTestContract) : Prop :=
  ∀ c ∈ contract.cases, ∀ d ∈ contract.cases, c.nodeId = d.nodeId → c.caseId = d.caseId

-- The result of a test belongs to the case with this id.
def FrozenTestContract.Reports (contract : FrozenTestContract) (id : String) (r : CaseResult) : Prop :=
  ∃ c ∈ contract.cases, c.caseId = id ∧ c.nodeId = r.nodeId

inductive Status
  | passed
  | assertion
  | other
deriving DecidableEq

def CaseResult.status (r : CaseResult) : Status :=
  if r.outcome = "failed" ∧ r.failureType = some "AssertionError" then .assertion
  else if r.outcome ≠ "passed" then .other
  else .passed

theorem CaseResult.status_eq_passed_iff {r : CaseResult} : r.status = .passed ↔ r.outcome = "passed" := by
  rw [status]
  split
  case isTrue h  => simp [h.1]
  case isFalse h =>
    split
    case isTrue h  => simp [h]
    case isFalse h => simpa using h

theorem get_caseIdByNode_iff (hf : contract.Functional) :
    Assoc.get contract.caseIdByNode node = some id ↔ ∃ c ∈ contract.cases, c.caseId = id ∧ c.nodeId = node := by
  constructor
  · intro h
    obtain ⟨c, hc, he⟩ := List.mem_map.mp (Assoc.mem_of_get_dict h)
    obtain ⟨rfl, rfl⟩ := Prod.mk.inj he
    exact ⟨c, hc, rfl, rfl⟩
  · rintro ⟨c, hc, rfl, rfl⟩
    obtain ⟨id, h⟩ := Assoc.exists_get_dict
      (List.mem_map_of_mem (f := fun c : TestCaseSnapshot => (c.nodeId, c.caseId)) hc)
    obtain ⟨d, hd, he⟩ := List.mem_map.mp (Assoc.mem_of_get_dict h)
    obtain ⟨hn, rfl⟩ := Prod.mk.inj he
    rw [hf c hc d hd hn.symm]
    exact h

theorem mem_contractedIds (hf : contract.Functional) : id ∈ contract.contractedIds ↔ ∃ c ∈ contract.cases, c.caseId = id := by
  rw [FrozenTestContract.contractedIds, List.mem_map]
  constructor
  · rintro ⟨item, hi, rfl⟩
    obtain ⟨c, hc, he⟩ := List.mem_map.mp (Assoc.mem_of_mem_dict hi)
    exact ⟨c, hc, (Prod.mk.inj he).2⟩
  · rintro ⟨c, hc, rfl⟩
    have h := (get_caseIdByNode_iff hf).mpr ⟨c, hc, rfl, rfl⟩
    exact ⟨_, Assoc.mem_of_get h, rfl⟩

-- The results of one case in the order of the evidence
def FrozenTestContract.resultsOf (contract : FrozenTestContract) (caseResults : List CaseResult) (id : String) :
    List CaseResult :=
  caseResults.filter fun r => Assoc.get contract.caseIdByNode r.nodeId = some id

theorem mem_resultsOf (hf : contract.Functional) :
    c ∈ contract.resultsOf caseResults id ↔ c ∈ caseResults ∧ contract.Reports id c := by
  rw [FrozenTestContract.resultsOf, List.mem_filter, decide_eq_true_eq, get_caseIdByNode_iff hf]
  rfl

-- What the loop keeps of a case is its last result.
theorem get_caseEvidence :
    Assoc.get (contract.caseEvidence caseResults).byCaseId id = (contract.resultsOf caseResults id).getLast? := by
  induction caseResults using List.reverseRecOn with
  | nil                      => rfl
  | append_singleton l c hi =>
    rw [FrozenTestContract.caseEvidence, List.foldl_append, ← FrozenTestContract.caseEvidence, List.foldl_cons,
      List.foldl_nil, FrozenTestContract.resultsOf, List.filter_append, ← FrozenTestContract.resultsOf,
      FrozenTestContract.addCase]
    cases hg : Assoc.get contract.caseIdByNode c.nodeId with
    | none        =>
      simp only [hg, reduceCtorEq, decide_false, List.filter_cons_of_neg, Bool.false_eq_true, not_false_eq_true,
        List.filter_nil, List.append_nil]
      split
      case isTrue  => exact hi
      case isFalse => exact hi
    | some caseId =>
      dsimp only
      rw [Assoc.get_set]
      by_cases h : id = caseId
      case pos =>
        subst h
        rw [if_pos rfl, List.filter_cons_of_pos (by simp [hg]), List.filter_nil, List.getLast?_append_of_ne_nil _ (by simp)]
        rfl
      case neg =>
        rw [if_neg h, List.filter_cons_of_neg (by simp [hg, Ne.symm h]), List.filter_nil, List.append_nil]
        exact hi

-- A node without a case that did not pass
def FrozenTestContract.unknownNode (contract : FrozenTestContract) (c : CaseResult) : Option String :=
  if Assoc.get contract.caseIdByNode c.nodeId = none ∧ c.outcome ∉ ["passed", "skipped"] then
    some (if c.nodeId = "" then "unknown_case" else c.nodeId)
  else
    none

theorem unexpected_addCase {e : CaseEvidence} :
    (contract.addCase e c).unexpected = e.unexpected ++ (contract.unknownNode c).toList := by
  rw [FrozenTestContract.addCase, FrozenTestContract.unknownNode]
  cases hg : Assoc.get contract.caseIdByNode c.nodeId with
  | some _ => simp
  | none   =>
    dsimp only
    by_cases ho : c.outcome ∈ ["passed", "skipped"]
    case pos => rw [if_pos ho, if_neg fun h => h.2 ho, Option.toList_none, List.append_nil]
    case neg => simp only [ho, not_false_eq_true, and_self, if_true, if_false, Option.toList_some]

theorem unexpected_caseEvidence :
    (contract.caseEvidence caseResults).unexpected = caseResults.filterMap contract.unknownNode := by
  induction caseResults using List.reverseRecOn with
  | nil                      => rfl
  | append_singleton l c hi =>
    rw [FrozenTestContract.caseEvidence, List.foldl_append, ← FrozenTestContract.caseEvidence, List.foldl_cons,
      List.foldl_nil, unexpected_addCase, hi, List.filterMap_append]
    cases h : contract.unknownNode c with
    | none   => simp [h]
    | some _ => simp [h]

end Cases

section Decision

variable {contract : FrozenTestContract} {results results' : List CommandEvidence} {caseResults : List CaseResult}
         {e : CaseEvidence} {id : String} {ids : List String}

-- The state in which a case is left
def CaseEvidence.status (e : CaseEvidence) (id : String) : Status :=
  match Assoc.get e.byCaseId id with
  | some c => c.status
  | none   => .passed

-- The end of the classification, when every case has its evidence
def FrozenTestContract.decided (contract : FrozenTestContract) (unknown : List String) (status : String → Status) :
    RedClassificationResult :=
  let failed := contract.baselineIds.filter (status · ≠ .passed)
  let failedExpected := contract.expectedFailureCaseIds.filter (status · = .assertion)
  let unexpected := unknown ++ contract.expectedFailureCaseIds.filter (status · = .other)
  if failed ≠ [] then {
    classification        := .baselineRegression
    errorCode             := "baseline_test_failed"
    failedCaseIds         := sortedSet failed
    baselineFailedCaseIds := sortedSet failed
  } else if unexpected ≠ [] then {
    classification    := .unexpectedRed
    errorCode         := "unexpected_test_failure"
    failedCaseIds     := sortedSet (failedExpected ++ unexpected)
    unexpectedCaseIds := sortedSet unexpected
  } else if failedExpected = [] then {
    classification := .unexpectedRed
    errorCode      := "expected_red_missing"
  } else {
    classification := .expectedRed
    errorCode      := "expected_red"
    failedCaseIds  := sortedSet failedExpected
  }

def FrozenTestContract.missingCommands (contract : FrozenTestContract) (results : List CommandEvidence) : List String :=
  (contract.commands.map (·.commandId)).filter (· ∉ results.filterMap (·.observedId))

def FrozenTestContract.missingCases (contract : FrozenTestContract) (e : CaseEvidence) : List String :=
  contract.contractedIds.filter fun id => (Assoc.get e.byCaseId id).isNone

theorem baselineFailed_eq (h : ∀ id ∈ ids, (Assoc.get e.byCaseId id).isSome) :
    baselineFailed e ids = .ok (ids.filter (e.status · ≠ .passed)) := by
  induction ids with
  | nil         => rfl
  | cons id ids hi =>
    obtain ⟨c, hc⟩ := Option.isSome_iff_exists.mp (h id List.mem_cons_self)
    have hs : e.status id = c.status := by rw [CaseEvidence.status, hc]
    rw [baselineFailed, evidenceOf, hc, hi fun id hid => h id (List.mem_cons_of_mem _ hid), List.filter_cons]
    by_cases ho : c.outcome = "passed"
    case pos => simp [hs, CaseResult.status_eq_passed_iff.mpr ho, ho, bind, Except.bind]
    case neg => simp [hs, CaseResult.status_eq_passed_iff.not.mpr ho, ho, bind, Except.bind]

theorem expectedOutcomes_eq (h : ∀ id ∈ ids, (Assoc.get e.byCaseId id).isSome) :
    expectedOutcomes e ids = .ok (ids.filter (e.status · = .assertion), ids.filter (e.status · = .other)) := by
  induction ids with
  | nil         => rfl
  | cons id ids hi =>
    obtain ⟨c, hc⟩ := Option.isSome_iff_exists.mp (h id List.mem_cons_self)
    have hs : e.status id = c.status := by rw [CaseEvidence.status, hc]
    rw [expectedOutcomes, evidenceOf, hc, hi fun id hid => h id (List.mem_cons_of_mem _ hid), List.filter_cons,
      List.filter_cons, hs, CaseResult.status]
    by_cases ha : c.outcome = "failed" ∧ c.failureType = some "AssertionError"
    case pos => simp [ha, bind, Except.bind]
    case neg =>
      by_cases ho : c.outcome = "passed"
      case pos => simp [ho, bind, Except.bind]
      case neg => simp [ha, ho, bind, Except.bind]

-- The classification by what it reads of the evidence
theorem classifyResults_eq (hf : contract.Functional) : classifyResults contract results =
    .ok (
      if contract.missingCommands results ≠ [] then {
        classification    := .invalidTest
        errorCode         := "required_command_evidence_missing"
        unexpectedCaseIds := sortedSet (contract.missingCommands results)
      } else if results.flatMap (·.collectionErrors) ≠ [] then {
        classification   := .invalidTest
        errorCode        := "pytest_collection_failed"
        collectionErrors := results.flatMap (·.collectionErrors)
      } else if results.flatMap (·.caseResults) = [] then {
        classification := .invalidTest
        errorCode      := "case_evidence_missing"
      } else if contract.missingCases (contract.caseEvidence (results.flatMap (·.caseResults))) ≠ [] then {
        classification    := .invalidTest
        errorCode         := "contract_case_not_collected"
        unexpectedCaseIds := sortedSet (contract.missingCases (contract.caseEvidence (results.flatMap (·.caseResults))))
      } else
        contract.decided ((results.flatMap (·.caseResults)).filterMap contract.unknownNode)
          (contract.caseEvidence (results.flatMap (·.caseResults))).status) := by
  rw [classifyResults]
  dsimp only
  change (if contract.missingCommands results ≠ [] then _ else _) = _
  split
  case isTrue => rfl
  split
  case isTrue => rfl
  split
  case isTrue => rfl
  change (if contract.missingCases _ ≠ [] then _ else _) = _
  split
  case isTrue => rfl
  case isFalse hm =>
    have hm := List.filter_eq_nil_iff.mp (not_ne_iff.mp hm)
    have hs : ∀ id ∈ contract.contractedIds,
        (Assoc.get (contract.caseEvidence (results.flatMap (·.caseResults))).byCaseId id).isSome := fun id hid => by
      simpa [Option.isSome_iff_ne_none] using hm id hid
    have hb : ∀ id ∈ contract.baselineIds, id ∈ contract.contractedIds := fun id hid => (List.mem_filter.mp hid).1
    have he : ∀ id ∈ contract.expectedFailureCaseIds, id ∈ contract.contractedIds := fun id hid => by
      obtain ⟨c, hc, hid⟩ := List.mem_map.mp (contract.expected_known id hid)
      exact (mem_contractedIds hf).mpr ⟨c, hc, hid⟩
    rw [baselineFailed_eq fun id hid => hs id (hb id hid), expectedOutcomes_eq fun id hid => hs id (he id hid),
      unexpected_caseEvidence, FrozenTestContract.decided]
    simp only [bind, Except.bind]
    split
    case isTrue => rfl
    split
    case isTrue => rfl
    split
    case isTrue => rfl
    case isFalse => rfl

end Decision

section Reordering

variable {contract : FrozenTestContract} {results results' : List CommandEvidence} {r : CaseResult} {id : String}

-- One command with its case results in another order
structure SameCommand (a b : CommandEvidence) : Prop where
  commandId        : b.commandId = a.commandId
  timedOut         : b.timedOut = a.timedOut
  collectionErrors : b.collectionErrors = a.collectionErrors
  caseResults      : a.caseResults.Perm b.caseResults

def Reordered (results results' : List CommandEvidence) : Prop :=
  ∃ l, results.Perm l ∧ List.Forall₂ SameCommand l results'

theorem SameCommand.refl (a : CommandEvidence) : SameCommand a a :=
  ⟨rfl, rfl, rfl, List.Perm.refl _⟩

theorem Reordered.caseResults (h : Reordered results results') :
    (results.flatMap (·.caseResults)).Perm (results'.flatMap (·.caseResults)) := by
  obtain ⟨l, hp, hf⟩ := h
  refine (hp.flatMap_right _).trans ?_
  clear hp
  induction hf with
  | nil           => exact List.Perm.refl _
  | cons hab _ hi => exact hab.caseResults.append hi

theorem Reordered.perm_map {α : Type} {f : CommandEvidence → List α} (hf : ∀ a b, SameCommand a b → f b = f a)
    (h : Reordered results results') : (results.flatMap f).Perm (results'.flatMap f) := by
  obtain ⟨l, hp, hl⟩ := h
  refine (hp.flatMap_right _).trans (List.Perm.of_eq ?_)
  clear hp
  induction hl with
  | nil           => rfl
  | cons hab _ hi => rw [List.flatMap_cons, List.flatMap_cons, hf _ _ hab, hi]

theorem Reordered.collectionErrors (h : Reordered results results') :
    (results.flatMap (·.collectionErrors)).Perm (results'.flatMap (·.collectionErrors)) :=
  h.perm_map fun _ _ hab => hab.collectionErrors

theorem Reordered.missingCommands (h : Reordered results results') :
    contract.missingCommands results' = contract.missingCommands results := by
  have hp := h.perm_map (f := fun item => item.observedId.toList) fun a b hab => by
    rw [CommandEvidence.observedId, CommandEvidence.observedId, hab.commandId]
  rw [FrozenTestContract.missingCommands, FrozenTestContract.missingCommands]
  refine List.filter_congr fun id _ => decide_eq_decide.mpr (not_congr ?_)
  have hm := hp.mem_iff (a := id)
  simp only [List.mem_flatMap, Option.mem_toList] at hm
  simp only [List.mem_filterMap]
  exact hm.symm

theorem Reordered.timedOut (h : Reordered results results') :
    results'.any (·.timedOut) = results.any (·.timedOut) := by
  have hp := h.perm_map (f := fun item => [item.timedOut]) fun a b hab => by rw [hab.timedOut]
  have hm := hp.mem_iff (a := true)
  simp only [List.mem_flatMap, List.mem_singleton] at hm
  rw [Bool.eq_iff_iff, List.any_eq_true, List.any_eq_true]
  simp only [eq_comm (a := true)] at hm
  exact hm.symm

-- Any result can come last.
theorem exists_reordered (h : r ∈ results.flatMap (·.caseResults)) :
    ∃ results' l, Reordered results results' ∧ results'.flatMap (·.caseResults) = l ++ [r] := by
  obtain ⟨item, hi, hr⟩ := List.mem_flatMap.mp h
  obtain ⟨before, after, rfl⟩ := List.append_of_mem hi
  obtain ⟨front, back, he⟩ := List.append_of_mem hr
  let last : CommandEvidence := { item with caseResults := front ++ back ++ [r] }
  have hlast : SameCommand item last := by
    refine ⟨rfl, rfl, rfl, ?_⟩
    rw [he]
    change (front ++ ([r] ++ back)).Perm (front ++ back ++ [r])
    rw [List.append_assoc]
    exact List.perm_append_comm.append_left front
  refine ⟨before ++ after ++ [last], (before ++ after).flatMap (·.caseResults) ++ (front ++ back), ?_, ?_⟩
  · refine ⟨before ++ after ++ [item], ?_, ?_⟩
    · change (before ++ ([item] ++ after)).Perm (before ++ after ++ [item])
      rw [List.append_assoc]
      exact List.perm_append_comm.append_left before
    · exact List.rel_append (List.forall₂_same.mpr fun a _ => SameCommand.refl a) (.cons hlast .nil)
  · rw [List.flatMap_append, List.flatMap_cons, List.flatMap_nil, List.append_nil, List.append_assoc]

end Reordering

section Answers

variable {contract : FrozenTestContract} {unknown unknown' ids ids' : List String} {status status' : String → Status}
         {id : String}

theorem sortedSet_congr (h : ∀ id, id ∈ ids ↔ id ∈ ids') : sortedSet ids = sortedSet ids' := by
  have hp : ids.dedup.Perm ids'.dedup := (List.perm_ext_iff_of_nodup ids.nodup_dedup ids'.nodup_dedup).mpr fun id => by
    rw [List.mem_dedup, List.mem_dedup, h id]
  refine List.Perm.eq_of_pairwise (fun _ _ _ _ => le_antisymm) (List.pairwise_insertionSort (· ≤ ·) _)
    (List.pairwise_insertionSort (· ≤ ·) _) ?_
  exact (List.perm_insertionSort _ _).trans (hp.trans (List.perm_insertionSort _ _).symm)

theorem decided_baseline : id ∈ (contract.decided unknown status).baselineFailedCaseIds ↔
    id ∈ contract.baselineIds ∧ status id ≠ .passed := by
  rw [FrozenTestContract.decided]
  split
  case isTrue => rw [mem_sortedSet, List.mem_filter, decide_eq_true_eq]
  case isFalse hn =>
    have hn : id ∉ contract.baselineIds.filter (status · ≠ .passed) := by
      rw [not_ne_iff.mp hn]
      exact List.not_mem_nil
    rw [List.mem_filter, decide_eq_true_eq] at hn
    split
    case isTrue => exact iff_of_false List.not_mem_nil hn
    split
    case isTrue => exact iff_of_false List.not_mem_nil hn
    case isFalse => exact iff_of_false List.not_mem_nil hn

section Baseline

variable (hb : ∀ id ∈ contract.baselineIds, status id = .passed)

include hb

theorem decided_eq : contract.decided unknown status =
    if unknown ++ contract.expectedFailureCaseIds.filter (status · = .other) ≠ [] then {
      classification    := .unexpectedRed
      errorCode         := "unexpected_test_failure"
      failedCaseIds     := sortedSet (contract.expectedFailureCaseIds.filter (status · = .assertion) ++
                             (unknown ++ contract.expectedFailureCaseIds.filter (status · = .other)))
      unexpectedCaseIds := sortedSet (unknown ++ contract.expectedFailureCaseIds.filter (status · = .other))
    } else if contract.expectedFailureCaseIds.filter (status · = .assertion) = [] then {
      classification := .unexpectedRed
      errorCode      := "expected_red_missing"
    } else {
      classification := .expectedRed
      errorCode      := "expected_red"
      failedCaseIds  := sortedSet (contract.expectedFailureCaseIds.filter (status · = .assertion))
    } := by
  have hn : contract.baselineIds.filter (status · ≠ .passed) = [] :=
    List.filter_eq_nil_iff.mpr fun id hid => by simp [hb id hid]
  rw [FrozenTestContract.decided]
  simp only [hn, ne_eq, not_true_eq_false, if_false]

theorem decided_unexpected (he : id ∈ contract.expectedFailureCaseIds) (hu : id ∉ unknown) :
    id ∈ (contract.decided unknown status).unexpectedCaseIds ↔ status id = .other := by
  have hother : id ∈ unknown ++ contract.expectedFailureCaseIds.filter (status · = .other) ↔ status id = .other := by
    rw [List.mem_append, List.mem_filter, decide_eq_true_eq]
    exact ⟨fun h => (h.resolve_left hu).2, fun h => .inr ⟨he, h⟩⟩
  rw [decided_eq hb]
  split
  case isTrue => rw [mem_sortedSet, hother]
  case isFalse hn =>
    have hn : status id ≠ .other := fun h => List.ne_nil_of_mem (hother.mpr h) (not_ne_iff.mp hn)
    split
    case isTrue  => exact iff_of_false List.not_mem_nil hn
    case isFalse => exact iff_of_false List.not_mem_nil hn

theorem decided_failed (he : id ∈ contract.expectedFailureCaseIds) (hu : id ∉ unknown) :
    id ∈ (contract.decided unknown status).failedCaseIds ↔ status id ≠ .passed := by
  have hother : id ∈ unknown ++ contract.expectedFailureCaseIds.filter (status · = .other) ↔ status id = .other := by
    rw [List.mem_append, List.mem_filter, decide_eq_true_eq]
    exact ⟨fun h => (h.resolve_left hu).2, fun h => .inr ⟨he, h⟩⟩
  have hassert : id ∈ contract.expectedFailureCaseIds.filter (status · = .assertion) ↔ status id = .assertion := by
    rw [List.mem_filter, decide_eq_true_eq]
    exact and_iff_right he
  rw [decided_eq hb]
  split
  case isTrue =>
    rw [mem_sortedSet, List.mem_append, hassert, hother]
    cases status id <;> simp
  case isFalse hn =>
    have hn : status id ≠ .other := fun h => List.ne_nil_of_mem (hother.mpr h) (not_ne_iff.mp hn)
    split
    case isTrue ha =>
      have ha : status id ≠ .assertion := fun h => List.ne_nil_of_mem (hassert.mpr h) ha
      refine iff_of_false List.not_mem_nil ?_
      cases hs : status id with
      | passed    => simp
      | assertion => exact absurd hs ha
      | other     => exact absurd hs hn
    case isFalse =>
      rw [mem_sortedSet, hassert]
      cases hs : status id with
      | passed    => simp
      | assertion => simp
      | other     => exact absurd hs hn

theorem decided_expectedRed : (contract.decided unknown status).classification = .expectedRed ↔
    unknown = [] ∧ (∀ id ∈ contract.expectedFailureCaseIds, status id ≠ .other) ∧
      ∃ id ∈ contract.expectedFailureCaseIds, status id = .assertion := by
  have hother : unknown ++ contract.expectedFailureCaseIds.filter (status · = .other) = [] ↔
      unknown = [] ∧ ∀ id ∈ contract.expectedFailureCaseIds, status id ≠ .other := by
    simp [List.filter_eq_nil_iff]
  have hassert : contract.expectedFailureCaseIds.filter (status · = .assertion) = [] ↔
      ¬∃ id ∈ contract.expectedFailureCaseIds, status id = .assertion := by
    simp [List.filter_eq_nil_iff]
  rw [decided_eq hb, ← and_assoc, ← hother]
  split
  case isTrue hn => exact iff_of_false (by simp) fun h => hn h.1
  case isFalse hn =>
    split
    case isTrue ha  => exact iff_of_false (by simp) fun h => hassert.mp ha h.2
    case isFalse ha => exact iff_of_true rfl ⟨not_ne_iff.mp hn, not_not.mp (hassert.not.mp ha)⟩

end Baseline

theorem baseline_of_expectedRed (h : (contract.decided unknown status).classification = .expectedRed)
    (hid : id ∈ contract.baselineIds) : status id = .passed := by
  by_contra hn
  have hne : contract.baselineIds.filter (status · ≠ .passed) ≠ [] :=
    List.ne_nil_of_mem (List.mem_filter.mpr ⟨hid, decide_eq_true hn⟩)
  rw [FrozenTestContract.decided, if_pos hne] at h
  cases h

-- The statuses decide, but for those of the cases whose ids are unexpected anyway.
theorem decided_congr (hu : ∀ id, id ∈ unknown ↔ id ∈ unknown')
    (hb : ∀ id ∈ contract.baselineIds, status id = .passed ↔ status' id = .passed)
    (he : (∀ id ∈ contract.baselineIds, status id = .passed) →
      ∀ id ∈ contract.expectedFailureCaseIds, id ∉ unknown → status id = status' id) :
    contract.decided unknown status = contract.decided unknown' status' := by
  by_cases hp : ∀ id ∈ contract.baselineIds, status id = .passed
  case neg =>
    have hf : contract.baselineIds.filter (status · ≠ .passed) = contract.baselineIds.filter (status' · ≠ .passed) :=
      List.filter_congr fun id hid => decide_eq_decide.mpr (not_congr (hb id hid))
    have hne : contract.baselineIds.filter (status · ≠ .passed) ≠ [] := fun h =>
      hp fun id hid => by simpa using List.filter_eq_nil_iff.mp h id hid
    rw [FrozenTestContract.decided, FrozenTestContract.decided]
    rw [if_pos hne, if_pos (hf ▸ hne), hf]
  case pos =>
    have hs := he hp
    have hp' : ∀ id ∈ contract.baselineIds, status' id = .passed := fun id hid => (hb id hid).mp (hp id hid)
    rw [decided_eq hp, decided_eq hp']
    cases hn : unknown with
    | nil       =>
      have hn' : unknown' = [] := List.eq_nil_iff_forall_not_mem.mpr fun id hid => by
        have := (hu id).mpr hid
        rw [hn] at this
        cases this
      have hst : ∀ id ∈ contract.expectedFailureCaseIds, status id = status' id := fun id hid =>
        hs id hid (by rw [hn]; exact List.not_mem_nil)
      have ho : ∀ s, contract.expectedFailureCaseIds.filter (status · = s) =
          contract.expectedFailureCaseIds.filter (status' · = s) := fun s =>
        List.filter_congr fun id hid => by rw [hst id hid]
      rw [hn', ho, ho]
    | cons a as =>
      have ha : a ∈ unknown' := (hu a).mp (by rw [hn]; exact List.mem_cons_self)
      rw [if_pos (by simp), if_pos (by simp [List.ne_nil_of_mem ha]), ← hn]
      have hmem : ∀ s id, id ∉ unknown → (id ∈ contract.expectedFailureCaseIds.filter (status · = s) ↔
          id ∈ contract.expectedFailureCaseIds.filter (status' · = s)) := by
        intro s id hid
        rw [List.mem_filter, List.mem_filter]
        exact and_congr_right fun h => by rw [hs id h hid]
      have hunexpected : ∀ id, id ∈ unknown ++ contract.expectedFailureCaseIds.filter (status · = .other) ↔
          id ∈ unknown' ++ contract.expectedFailureCaseIds.filter (status' · = .other) := by
        intro id
        rw [List.mem_append, List.mem_append, ← hu id]
        by_cases hid : id ∈ unknown
        case pos => simp [hid]
        case neg => rw [hmem _ id hid]
      have hfailed : ∀ id, id ∈ contract.expectedFailureCaseIds.filter (status · = .assertion) ++
            (unknown ++ contract.expectedFailureCaseIds.filter (status · = .other)) ↔
          id ∈ contract.expectedFailureCaseIds.filter (status' · = .assertion) ++
            (unknown' ++ contract.expectedFailureCaseIds.filter (status' · = .other)) := by
        intro id
        by_cases hid : id ∈ unknown
        case pos => simp [hid, (hu id).mp hid]
        case neg =>
          rw [List.mem_append, hmem _ id hid, hunexpected id]
          exact List.mem_append.symm
      rw [sortedSet_congr hunexpected, sortedSet_congr hfailed]

end Answers

section Specification

variable {contract : FrozenTestContract} {results results' : List CommandEvidence} {errorCode : Option String}
         {manifest : RunEvidence} {l : List CaseResult} {r r' : CaseResult} {id : String}

-- What a red run is to show
structure ExpectedRed (contract : FrozenTestContract) (manifest : RunEvidence) : Prop where
  untimed  : ∀ item ∈ manifest.results, item.timedOut = false
  code     : isInfrastructureError (manifest.errorCode.getD "") = false
  commands : ∀ c ∈ contract.commands, ∃ item ∈ manifest.results, item.observedId = some c.commandId
  collects : ∀ item ∈ manifest.results, item.collectionErrors = []
  evidence : ∀ c ∈ contract.cases, ∃ r ∈ manifest.results.flatMap (·.caseResults), contract.Reports c.caseId r
  baseline : ∀ c ∈ contract.cases, c.caseId ∉ contract.expectedFailureCaseIds →
               ∀ r ∈ manifest.results.flatMap (·.caseResults), contract.Reports c.caseId r → r.outcome = "passed"
  expected : ∀ id ∈ contract.expectedFailureCaseIds, ∀ r ∈ manifest.results.flatMap (·.caseResults),
               contract.Reports id r →
               r.outcome = "passed" ∨ r.outcome = "failed" ∧ r.failureType = some "AssertionError"
  failing  : ∃ id ∈ contract.expectedFailureCaseIds, ∃ r ∈ manifest.results.flatMap (·.caseResults),
               contract.Reports id r ∧ r.outcome = "failed" ∧ r.failureType = some "AssertionError"
  others   : ∀ r ∈ manifest.results.flatMap (·.caseResults), (∀ c ∈ contract.cases, c.nodeId ≠ r.nodeId) →
               r.outcome = "passed" ∨ r.outcome = "skipped"

-- Two answers, up to the order in which they name the collection errors
structure SameAnswer (a b : RedClassificationResult) : Prop where
  classification : a.classification = b.classification
  errorCode      : a.errorCode = b.errorCode
  failed         : a.failedCaseIds = b.failedCaseIds
  unexpected     : a.unexpectedCaseIds = b.unexpectedCaseIds
  baselineFailed : a.baselineFailedCaseIds = b.baselineFailedCaseIds
  errors         : a.collectionErrors.Perm b.collectionErrors

-- The classification is its specification and the same in any order of the results.
structure Classifies (contract : FrozenTestContract) (manifest : RunEvidence) : Prop where
  specified : (∃ a, classifyRedVerification contract manifest = .ok a ∧ a.classification = .expectedRed) ↔
                ExpectedRed contract manifest
  ordered   : ∀ results, Reordered manifest.results results →
                ∃ a b, classifyRedVerification contract manifest = .ok a ∧
                  classifyRedVerification contract { manifest with results } = .ok b ∧ SameAnswer a b

-- The results of one case agree: those of a baseline case passed or did not, and with a sound baseline those of an
-- expected case passed, failed by an assertion or ended in another way.
structure Agreeing (contract : FrozenTestContract) (caseResults : List CaseResult) : Prop where
  baseline : ∀ id ∈ contract.baselineIds, ∀ r ∈ caseResults, ∀ r' ∈ caseResults, contract.Reports id r →
               contract.Reports id r' → (r.outcome = "passed" ↔ r'.outcome = "passed")
  expected : (∃ id ∈ contract.baselineIds, ∃ r ∈ caseResults, contract.Reports id r ∧ r.outcome ≠ "passed") ∨
               ∀ id ∈ contract.expectedFailureCaseIds, id ∉ caseResults.filterMap contract.unknownNode →
               ∀ r ∈ caseResults, ∀ r' ∈ caseResults, contract.Reports id r → contract.Reports id r' →
               r.status = r'.status

-- The run is classified before its cases are looked at.
def ClassifiedEarly (contract : FrozenTestContract) (manifest : RunEvidence) : Prop :=
  (manifest.results.any (·.timedOut) ∨ isInfrastructureError (manifest.errorCode.getD "")) ∨
  (∃ c ∈ contract.commands, ∀ item ∈ manifest.results, item.observedId ≠ some c.commandId) ∨
  (∃ item ∈ manifest.results, item.collectionErrors ≠ []) ∨
  ∃ c ∈ contract.cases, ∀ r ∈ manifest.results.flatMap (·.caseResults), ¬contract.Reports c.caseId r

theorem SameAnswer.refl (a : RedClassificationResult) : SameAnswer a a :=
  ⟨rfl, rfl, rfl, rfl, rfl, List.Perm.refl _⟩

theorem SameAnswer.symm {a b : RedClassificationResult} (h : SameAnswer a b) : SameAnswer b a where
  classification := h.classification.symm
  errorCode      := h.errorCode.symm
  failed         := h.failed.symm
  unexpected     := h.unexpected.symm
  baselineFailed := h.baselineFailed.symm
  errors         := h.errors.symm

theorem SameAnswer.trans {a b c : RedClassificationResult} (h : SameAnswer a b) (h' : SameAnswer b c) :
    SameAnswer a c where
  classification := h.classification.trans h'.classification
  errorCode      := h.errorCode.trans h'.errorCode
  failed         := h.failed.trans h'.failed
  unexpected     := h.unexpected.trans h'.unexpected
  baselineFailed := h.baselineFailed.trans h'.baselineFailed
  errors         := h.errors.trans h'.errors

abbrev evidenceIn (contract : FrozenTestContract) (results : List CommandEvidence) : CaseEvidence :=
  contract.caseEvidence (results.flatMap (·.caseResults))

theorem isNone_evidence_iff (hf : contract.Functional) :
    (Assoc.get (contract.caseEvidence l).byCaseId id).isNone ↔ ∀ r ∈ l, ¬contract.Reports id r := by
  rw [get_caseEvidence, Option.isNone_iff_eq_none, List.getLast?_eq_none_iff, List.eq_nil_iff_forall_not_mem]
  exact ⟨fun h r hr hrep => h r ((mem_resultsOf hf).mpr ⟨hr, hrep⟩), fun h r hr =>
    h r ((mem_resultsOf hf).mp hr).1 ((mem_resultsOf hf).mp hr).2⟩

theorem missingCases_eq_nil_iff (hf : contract.Functional) : contract.missingCases (contract.caseEvidence l) = [] ↔
    ∀ c ∈ contract.cases, ∃ r ∈ l, contract.Reports c.caseId r := by
  rw [FrozenTestContract.missingCases, List.filter_eq_nil_iff]
  constructor
  · intro h c hc
    have hid := h c.caseId ((mem_contractedIds hf).mpr ⟨c, hc, rfl⟩)
    rw [isNone_evidence_iff hf] at hid
    simpa using hid
  · intro h id hid
    obtain ⟨c, hc, rfl⟩ := (mem_contractedIds hf).mp hid
    rw [isNone_evidence_iff hf]
    obtain ⟨r, hr, hrep⟩ := h c hc
    exact fun hn => hn r hr hrep

theorem Reordered.missingCases (hf : contract.Functional) (h : Reordered results results') :
    contract.missingCases (evidenceIn contract results') = contract.missingCases (evidenceIn contract results) := by
  refine List.filter_congr fun id _ => ?_
  rw [Bool.eq_iff_iff, isNone_evidence_iff hf, isNone_evidence_iff hf]
  exact ⟨fun hn r hr => hn r (h.caseResults.mem_iff.mp hr), fun hn r hr => hn r (h.caseResults.mem_iff.mpr hr)⟩

-- The status of a case is that of one of its results.
theorem exists_status (hf : contract.Functional) (hr : r ∈ l) (hrep : contract.Reports id r) :
    ∃ r' ∈ l, contract.Reports id r' ∧ (contract.caseEvidence l).status id = r'.status := by
  have hm := (mem_resultsOf hf).mpr ⟨hr, hrep⟩
  have hg : (contract.resultsOf l id).getLast? = some ((contract.resultsOf l id).getLast (List.ne_nil_of_mem hm)) :=
    List.getLast?_eq_getLast_of_ne_nil _
  obtain ⟨hl, hrep'⟩ := (mem_resultsOf hf).mp (List.getLast_mem (List.ne_nil_of_mem hm))
  exact ⟨_, hl, hrep', by rw [CaseEvidence.status, get_caseEvidence, hg]⟩

theorem status_last (hf : contract.Functional) (hrep : contract.Reports id r) :
    (contract.caseEvidence (l ++ [r])).status id = r.status := by
  have hg := (get_caseIdByNode_iff hf).mpr hrep
  rw [CaseEvidence.status, get_caseEvidence, FrozenTestContract.resultsOf, List.filter_append,
    List.filter_cons_of_pos (by simp [hg]), List.filter_nil, List.getLast?_append_of_ne_nil _ (by simp)]
  rfl

abbrev decidedFor (contract : FrozenTestContract) (results : List CommandEvidence) : RedClassificationResult :=
  contract.decided ((results.flatMap (·.caseResults)).filterMap contract.unknownNode) (evidenceIn contract results).status

theorem missingCommands_eq_nil_iff : contract.missingCommands results = [] ↔
    ∀ c ∈ contract.commands, ∃ item ∈ results, item.observedId = some c.commandId := by
  rw [FrozenTestContract.missingCommands, List.filter_eq_nil_iff]
  simp [List.mem_filterMap]

-- Past the early answers
structure Late (contract : FrozenTestContract) (manifest : RunEvidence) : Prop where
  runs     : ¬(manifest.results.any (·.timedOut) ∨ isInfrastructureError (manifest.errorCode.getD ""))
  commands : contract.missingCommands manifest.results = []
  collects : manifest.results.flatMap (·.collectionErrors) = []
  cases    : contract.missingCases (evidenceIn contract manifest.results) = []

theorem late_iff (hf : contract.Functional) : Late contract manifest ↔ ¬ClassifiedEarly contract manifest := by
  constructor
  · rintro ⟨hr, hc, he, hm⟩ (h | ⟨c, hmem, hn⟩ | ⟨item, hi, hn⟩ | ⟨c, hmem, hn⟩)
    · exact hr h
    · obtain ⟨item, hi, ho⟩ := missingCommands_eq_nil_iff.mp hc c hmem
      exact hn item hi ho
    · exact hn (List.flatMap_eq_nil_iff.mp he item hi)
    · obtain ⟨r, hr, hrep⟩ := (missingCases_eq_nil_iff hf).mp hm c hmem
      exact hn r hr hrep
  · intro h
    constructor
    case runs     => exact fun hr => h (.inl hr)
    case commands =>
      refine missingCommands_eq_nil_iff.mpr fun c hmem => ?_
      by_contra hn
      exact h (.inr (.inl ⟨c, hmem, fun item hi ho => hn ⟨item, hi, ho⟩⟩))
    case collects =>
      refine List.flatMap_eq_nil_iff.mpr fun item hi => ?_
      by_contra hn
      exact h (.inr (.inr (.inl ⟨item, hi, hn⟩)))
    case cases    =>
      refine (missingCases_eq_nil_iff hf).mpr fun c hmem => ?_
      by_contra hn
      exact h (.inr (.inr (.inr ⟨c, hmem, fun r hr hrep => hn ⟨r, hr, hrep⟩⟩)))

theorem Late.caseResults_ne (hf : contract.Functional) (h : Late contract manifest) :
    manifest.results.flatMap (·.caseResults) ≠ [] := by
  obtain ⟨c, hc⟩ := List.exists_mem_of_ne_nil _ contract.cases_required
  obtain ⟨r, hr, _⟩ := (missingCases_eq_nil_iff hf).mp h.cases c hc
  exact List.ne_nil_of_mem hr

theorem classify_late (hf : contract.Functional) (h : Late contract manifest) :
    classifyRedVerification contract manifest = .ok (decidedFor contract manifest.results) := by
  rw [classifyRedVerification, if_neg h.runs, classifyResults_eq hf, if_neg (not_ne_iff.mpr h.commands), if_neg (not_ne_iff.mpr h.collects),
    if_neg (h.caseResults_ne hf), if_neg (not_ne_iff.mpr h.cases)]

theorem classify_early (hf : contract.Functional) (h : ¬Late contract manifest) :
    ∃ a, classifyRedVerification contract manifest = .ok a ∧ a.classification ≠ .expectedRed := by
  rw [classifyRedVerification]
  by_cases hr : manifest.results.any (·.timedOut) ∨ isInfrastructureError (manifest.errorCode.getD "")
  case pos => exact ⟨_, if_pos hr, by simp⟩
  rw [if_neg hr, classifyResults_eq hf]
  refine ⟨_, rfl, ?_⟩
  by_cases hc : contract.missingCommands manifest.results = []
  case neg => simp [hc]
  by_cases he : manifest.results.flatMap (·.collectionErrors) = []
  case neg => rw [if_neg (not_ne_iff.mpr hc), if_pos he]; simp
  rw [if_neg (not_ne_iff.mpr hc), if_neg (not_ne_iff.mpr he)]
  split
  case isTrue => simp
  split
  case isTrue => simp
  case isFalse hm => exact absurd ⟨hr, hc, he, not_ne_iff.mp hm⟩ h

theorem ordered_of (hf : contract.Functional) (ho : Reordered manifest.results results)
    (hd : Late contract manifest → decidedFor contract manifest.results = decidedFor contract results) :
    ∃ a b, classifyRedVerification contract manifest = .ok a ∧
      classifyRedVerification contract { manifest with results } = .ok b ∧ SameAnswer a b := by
  rw [classifyRedVerification, classifyRedVerification]
  dsimp only
  rw [ho.timedOut]
  by_cases hr : manifest.results.any (·.timedOut) ∨ isInfrastructureError (manifest.errorCode.getD "")
  case pos => exact ⟨_, _, if_pos hr, if_pos hr, SameAnswer.refl _⟩
  rw [if_neg hr, if_neg hr, classifyResults_eq hf, classifyResults_eq hf]
  refine ⟨_, _, rfl, rfl, ?_⟩
  rw [ho.missingCommands]
  by_cases hc : contract.missingCommands manifest.results = []
  case neg =>
    rw [if_pos hc, if_pos hc]
    exact SameAnswer.refl _
  rw [if_neg (not_ne_iff.mpr hc), if_neg (not_ne_iff.mpr hc)]
  have herrors := ho.collectionErrors
  by_cases he : manifest.results.flatMap (·.collectionErrors) = []
  case neg =>
    have he' : results.flatMap (·.collectionErrors) ≠ [] := fun h => he (by rw [h] at herrors; exact herrors.eq_nil)
    rw [if_pos he, if_pos he']
    exact ⟨rfl, rfl, rfl, rfl, rfl, herrors⟩
  have he' : results.flatMap (·.collectionErrors) = [] := by
    rw [he] at herrors
    exact herrors.symm.eq_nil
  rw [if_neg (not_ne_iff.mpr he), if_neg (not_ne_iff.mpr he')]
  have hcases := ho.caseResults
  by_cases hn : manifest.results.flatMap (·.caseResults) = []
  case pos =>
    have hn' : results.flatMap (·.caseResults) = [] := by
      rw [hn] at hcases
      exact hcases.symm.eq_nil
    rw [if_pos hn, if_pos hn']
    exact SameAnswer.refl _
  have hn' : results.flatMap (·.caseResults) ≠ [] := fun h => hn (by rw [h] at hcases; exact hcases.eq_nil)
  rw [if_neg hn, if_neg hn', ho.missingCases hf]
  by_cases hm : contract.missingCases (evidenceIn contract manifest.results) = []
  case neg =>
    rw [if_pos hm, if_pos hm]
    exact SameAnswer.refl _
  have hd : contract.decided _ _ = contract.decided _ _ := hd ⟨hr, hc, he, hm⟩
  rw [if_neg (not_ne_iff.mpr hm), if_neg (not_ne_iff.mpr hm), hd]
  exact SameAnswer.refl _

theorem reported_of_late (hf : contract.Functional) (h : Late contract manifest) (hid : id ∈ contract.contractedIds) :
    ∃ r ∈ manifest.results.flatMap (·.caseResults), contract.Reports id r := by
  obtain ⟨c, hc, rfl⟩ := (mem_contractedIds hf).mp hid
  exact (missingCases_eq_nil_iff hf).mp h.cases c hc

theorem expected_contracted (hf : contract.Functional) (hid : id ∈ contract.expectedFailureCaseIds) :
    id ∈ contract.contractedIds := by
  obtain ⟨c, hc, hid⟩ := List.mem_map.mp (contract.expected_known id hid)
  exact (mem_contractedIds hf).mpr ⟨c, hc, hid⟩

theorem baseline_contracted (hid : id ∈ contract.baselineIds) : id ∈ contract.contractedIds :=
  (List.mem_filter.mp hid).1

-- Results that agree decide in any order.
theorem Agreeing.decided (hf : contract.Functional) (ha : Agreeing contract (manifest.results.flatMap (·.caseResults)))
    (hl : Late contract manifest) (ho : Reordered manifest.results results) :
    decidedFor contract manifest.results = decidedFor contract results := by
  have hp := ho.caseResults
  -- the results that leave a case in its status in both orders
  have both : ∀ {id}, id ∈ contract.contractedIds → ∃ r ∈ manifest.results.flatMap (·.caseResults),
      ∃ r' ∈ manifest.results.flatMap (·.caseResults), contract.Reports id r ∧ contract.Reports id r' ∧
      (evidenceIn contract manifest.results).status id = r.status ∧ (evidenceIn contract results).status id = r'.status := by
    intro id hid
    obtain ⟨r₀, hr₀, hrep₀⟩ := reported_of_late hf hl hid
    obtain ⟨r, hr, hrep, hs⟩ := exists_status hf hr₀ hrep₀
    obtain ⟨r', hr', hrep', hs'⟩ := exists_status hf (hp.mem_iff.mp hr₀) hrep₀
    exact ⟨r, hr, r', hp.mem_iff.mpr hr', hrep, hrep', hs, hs'⟩
  refine decided_congr (fun id => (hp.filterMap _).mem_iff) (fun id hid => ?_) fun hpassed id hid hu => ?_
  · obtain ⟨r, hr, r', hr', hrep, hrep', hs, hs'⟩ := both (baseline_contracted hid)
    rw [hs, hs', CaseResult.status_eq_passed_iff, CaseResult.status_eq_passed_iff]
    exact ha.baseline id hid r hr r' hr' hrep hrep'
  · obtain ⟨r, hr, r', hr', hrep, hrep', hs, hs'⟩ := both (expected_contracted hf hid)
    rw [hs, hs']
    cases ha.expected with
    | inr h => exact h id hid hu r hr r' hr' hrep hrep'
    | inl h =>
      obtain ⟨b, hb, q, hq, hqrep, hn⟩ := h
      obtain ⟨q', hq', _, _, hqrep', _, hs, _⟩ := both (baseline_contracted hb)
      have hpass := CaseResult.status_eq_passed_iff.mp (hs.symm.trans (hpassed b hb))
      exact absurd ((ha.baseline b hb q hq q' hq' hqrep hqrep').mpr hpass) hn

theorem unknownNode_eq_none_iff (hf : contract.Functional) : contract.unknownNode r = none ↔
    ((∀ c ∈ contract.cases, c.nodeId ≠ r.nodeId) → r.outcome = "passed" ∨ r.outcome = "skipped") := by
  have hg : Assoc.get contract.caseIdByNode r.nodeId = none ↔ ∀ c ∈ contract.cases, c.nodeId ≠ r.nodeId := by
    rw [Option.eq_none_iff_forall_ne_some]
    constructor
    · intro h c hc hn
      exact h c.caseId ((get_caseIdByNode_iff hf).mpr ⟨c, hc, rfl, hn⟩)
    · intro h id hid
      obtain ⟨c, hc, _, hn⟩ := (get_caseIdByNode_iff hf).mp hid
      exact h c hc hn
  simp only [FrozenTestContract.unknownNode, hg, ite_eq_right_iff, reduceCtorEq, imp_false, not_and, not_not,
    List.mem_cons, List.not_mem_nil, or_false]

theorem status_eq_assertion_iff : r.status = .assertion ↔ r.outcome = "failed" ∧ r.failureType = some "AssertionError" := by
  rw [CaseResult.status]
  split
  case isTrue h  => simp [h]
  case isFalse h =>
    split
    case isTrue  => simp [h]
    case isFalse => simp [h]

theorem status_ne_other_iff : r.status ≠ .other ↔
    r.outcome = "passed" ∨ r.outcome = "failed" ∧ r.failureType = some "AssertionError" := by
  rw [← status_eq_assertion_iff, ← CaseResult.status_eq_passed_iff]
  cases r.status <;> simp

theorem Agreeing.specified (hf : contract.Functional) (ha : Agreeing contract (manifest.results.flatMap (·.caseResults)))
    (hl : Late contract manifest) :
    (decidedFor contract manifest.results).classification = .expectedRed ↔ ExpectedRed contract manifest := by
  have kept : ∀ {id}, id ∈ contract.contractedIds → ∃ r ∈ manifest.results.flatMap (·.caseResults),
      contract.Reports id r ∧ (evidenceIn contract manifest.results).status id = r.status := by
    intro id hid
    obtain ⟨r₀, hr₀, hrep₀⟩ := reported_of_late hf hl hid
    exact exists_status hf hr₀ hrep₀
  have hbase : ∀ {id}, id ∈ contract.baselineIds ↔ id ∈ contract.contractedIds ∧ id ∉ contract.expectedFailureCaseIds := by
    intro id
    rw [FrozenTestContract.baselineIds, List.mem_filter, decide_eq_true_eq]
  have hunknown : (manifest.results.flatMap (·.caseResults)).filterMap contract.unknownNode = [] ↔
      ∀ r ∈ manifest.results.flatMap (·.caseResults), (∀ c ∈ contract.cases, c.nodeId ≠ r.nodeId) →
        r.outcome = "passed" ∨ r.outcome = "skipped" := by
    rw [List.filterMap_eq_nil_iff]
    exact forall₂_congr fun r _ => unknownNode_eq_none_iff hf
  constructor
  · intro h
    have hb : ∀ id ∈ contract.baselineIds, (evidenceIn contract manifest.results).status id = .passed :=
      fun id hid => baseline_of_expectedRed h hid
    have hbaseline : ∀ id ∈ contract.baselineIds, ∀ r ∈ manifest.results.flatMap (·.caseResults),
        contract.Reports id r → r.outcome = "passed" := by
      intro id hid r hr hrep
      obtain ⟨r', hr', hrep', hs⟩ := kept (baseline_contracted hid)
      exact (ha.baseline id hid r hr r' hr' hrep hrep').mpr
        (CaseResult.status_eq_passed_iff.mp (hs.symm.trans (hb id hid)))
    obtain ⟨hu, ho, id₀, hid₀, hs₀⟩ := (decided_expectedRed hb).mp h
    have hexpected : ∀ id ∈ contract.expectedFailureCaseIds, ∀ r ∈ manifest.results.flatMap (·.caseResults),
        contract.Reports id r → (evidenceIn contract manifest.results).status id = r.status := by
      intro id hid r hr hrep
      obtain ⟨r', hr', hrep', hs⟩ := kept (expected_contracted hf hid)
      rw [hs]
      cases ha.expected with
      | inr h => exact h id hid (by rw [hu]; exact List.not_mem_nil) r' hr' r hr hrep' hrep
      | inl h =>
        obtain ⟨b, hb, q, hq, hqrep, hn⟩ := h
        exact absurd (hbaseline b hb q hq hqrep) hn
    constructor
    case untimed  => exact fun item hi => by simpa using fun ht => hl.runs (.inl (List.any_eq_true.mpr ⟨item, hi, ht⟩))
    case code     => simpa using fun hc => hl.runs (.inr hc)
    case commands => exact missingCommands_eq_nil_iff.mp hl.commands
    case collects => exact List.flatMap_eq_nil_iff.mp hl.collects
    case evidence => exact (missingCases_eq_nil_iff hf).mp hl.cases
    case baseline =>
      exact fun c hc hn => hbaseline c.caseId (hbase.mpr ⟨(mem_contractedIds hf).mpr ⟨c, hc, rfl⟩, hn⟩)
    case expected =>
      intro id hid r hr hrep
      exact status_ne_other_iff.mp (hexpected id hid r hr hrep ▸ ho id hid)
    case failing  =>
      obtain ⟨r, hr, hrep, hs⟩ := kept (expected_contracted hf hid₀)
      exact ⟨id₀, hid₀, r, hr, hrep, status_eq_assertion_iff.mp (hs.symm.trans hs₀)⟩
    case others   => exact hunknown.mp hu
  · intro h
    have hu := hunknown.mpr h.others
    have hpassed : ∀ id ∈ contract.baselineIds, ∀ r ∈ manifest.results.flatMap (·.caseResults),
        contract.Reports id r → r.outcome = "passed" := by
      intro id hid r hr hrep
      obtain ⟨c, hc, rfl⟩ := (mem_contractedIds hf).mp (baseline_contracted hid)
      exact h.baseline c hc (hbase.mp hid).2 r hr hrep
    have hb : ∀ id ∈ contract.baselineIds, (evidenceIn contract manifest.results).status id = .passed := by
      intro id hid
      obtain ⟨r, hr, hrep, hs⟩ := kept (baseline_contracted hid)
      rw [hs, CaseResult.status_eq_passed_iff]
      exact hpassed id hid r hr hrep
    refine (decided_expectedRed hb).mpr ⟨hu, fun id hid => ?_, ?_⟩
    · obtain ⟨r, hr, hrep, hs⟩ := kept (expected_contracted hf hid)
      rw [hs]
      exact status_ne_other_iff.mpr (h.expected id hid r hr hrep)
    · obtain ⟨id, hid, r, hr, hrep, hfail⟩ := h.failing
      obtain ⟨r', hr', hrep', hs⟩ := kept (expected_contracted hf hid)
      refine ⟨id, hid, ?_⟩
      rw [hs, ← status_eq_assertion_iff.mpr hfail]
      cases ha.expected with
      | inr h => exact h id hid (by rw [hu]; exact List.not_mem_nil) r' hr' r hr hrep' hrep
      | inl h =>
        obtain ⟨b, hb, q, hq, hqrep, hn⟩ := h
        exact absurd (hpassed b hb q hq hqrep) hn

-- Some order of the results leaves a case in the status of any of its results.
theorem exists_decided (hf : contract.Functional) (hr : r ∈ manifest.results.flatMap (·.caseResults))
    (hrep : contract.Reports id r) : ∃ results, Reordered manifest.results results ∧
      (evidenceIn contract results).status id = r.status := by
  obtain ⟨results, l, ho, hl⟩ := exists_reordered hr
  exact ⟨results, ho, by rw [evidenceIn, hl]; exact status_last hf hrep⟩

theorem Late.reordered (hf : contract.Functional) (h : Late contract manifest) (ho : Reordered manifest.results results) :
    Late contract { manifest with results } where
  runs     := by
    rw [ho.timedOut]
    exact h.runs
  commands := ho.missingCommands.trans h.commands
  collects := by
    have he := ho.collectionErrors
    rw [h.collects] at he
    exact he.symm.eq_nil
  cases    := (ho.missingCases hf).trans h.cases

theorem agreeing_of_classifies (hf : contract.Functional) (h : Classifies contract manifest) (hl : Late contract manifest) :
    Agreeing contract (manifest.results.flatMap (·.caseResults)) := by
  have answer : ∀ {results}, Reordered manifest.results results →
      SameAnswer (decidedFor contract manifest.results) (decidedFor contract results) := by
    intro results ho
    obtain ⟨a, b, ha, hb, hab⟩ := h.ordered results ho
    rw [classify_late hf hl] at ha
    rw [classify_late hf (hl.reordered hf ho)] at hb
    rwa [Except.ok.inj ha, Except.ok.inj hb]
  -- any two orders give one answer
  have one : ∀ {results results'}, Reordered manifest.results results → Reordered manifest.results results' →
      SameAnswer (decidedFor contract results) (decidedFor contract results') :=
    fun ho ho' => (answer ho).symm.trans (answer ho')
  constructor
  case baseline =>
    intro id hid r hr r' hr' hrep hrep'
    obtain ⟨results₁, ho₁, hs₁⟩ := exists_decided hf hr hrep
    obtain ⟨results₂, ho₂, hs₂⟩ := exists_decided hf hr' hrep'
    have he : (decidedFor contract results₁).baselineFailedCaseIds = (decidedFor contract results₂).baselineFailedCaseIds :=
      (one ho₁ ho₂).baselineFailed
    have h₁ : id ∈ (decidedFor contract results₁).baselineFailedCaseIds ↔ _ := decided_baseline
    have h₂ : id ∈ (decidedFor contract results₂).baselineFailedCaseIds ↔ _ := decided_baseline
    rw [hs₁, and_iff_right hid, he, h₂, hs₂, and_iff_right hid] at h₁
    rw [← CaseResult.status_eq_passed_iff, ← CaseResult.status_eq_passed_iff]
    exact not_iff_not.mp h₁.symm
  case expected =>
    by_cases hfail : ∃ id ∈ contract.baselineIds, ∃ r ∈ manifest.results.flatMap (·.caseResults),
        contract.Reports id r ∧ r.outcome ≠ "passed"
    case pos => exact .inl hfail
    case neg =>
      have passed : ∀ {results}, Reordered manifest.results results →
          ∀ id ∈ contract.baselineIds, (evidenceIn contract results).status id = .passed := by
        intro results ho id hid
        obtain ⟨r₀, hr₀, hrep₀⟩ := reported_of_late hf hl (baseline_contracted hid)
        obtain ⟨r, hr, hrep, hs⟩ := exists_status hf (ho.caseResults.mem_iff.mp hr₀) hrep₀
        rw [hs, CaseResult.status_eq_passed_iff]
        by_contra hn
        exact hfail ⟨id, hid, r, ho.caseResults.mem_iff.mpr hr, hrep, hn⟩
      refine .inr fun id hid hu r hr r' hr' hrep hrep' => ?_
      obtain ⟨results₁, ho₁, hs₁⟩ := exists_decided hf hr hrep
      obtain ⟨results₂, ho₂, hs₂⟩ := exists_decided hf hr' hrep'
      have unexpected : ∀ {results}, Reordered manifest.results results →
          id ∉ (results.flatMap (·.caseResults)).filterMap contract.unknownNode := fun ho hm =>
        hu ((ho.caseResults.filterMap _).mem_iff.mpr hm)
      have hfailed : (decidedFor contract results₁).failedCaseIds = (decidedFor contract results₂).failedCaseIds :=
        (one ho₁ ho₂).failed
      have hunexpected : (decidedFor contract results₁).unexpectedCaseIds =
          (decidedFor contract results₂).unexpectedCaseIds :=
        (one ho₁ ho₂).unexpected
      have f₁ := decided_failed (passed ho₁) hid (unexpected ho₁)
      have f₂ := decided_failed (passed ho₂) hid (unexpected ho₂)
      have u₁ := decided_unexpected (passed ho₁) hid (unexpected ho₁)
      have u₂ := decided_unexpected (passed ho₂) hid (unexpected ho₂)
      rw [hs₁, hfailed, f₂, hs₂] at f₁
      rw [hs₁, hunexpected, u₂, hs₂] at u₁
      cases h₁ : r.status with
      | passed    =>
        rw [h₁] at f₁
        exact (not_not.mp fun hn => f₁.mp hn rfl).symm
      | other     => exact (u₁.mpr h₁).symm
      | assertion =>
        rw [h₁] at f₁ u₁
        have hp := f₁.mpr (by simp)
        cases h₂ : r'.status with
        | passed    => exact absurd h₂ hp
        | other     => exact absurd (u₁.mp h₂) (by simp)
        | assertion => rfl

theorem not_expectedRed_of_early (h : ClassifiedEarly contract manifest) : ¬ExpectedRed contract manifest := by
  intro e
  rcases h with (h | h) | ⟨c, hc, hn⟩ | ⟨item, hi, hn⟩ | ⟨c, hc, hn⟩
  · obtain ⟨item, hi, ht⟩ := List.any_eq_true.mp h
    exact absurd ht (by simp [e.untimed item hi])
  · exact absurd h (by simp [e.code])
  · obtain ⟨item, hi, ho⟩ := e.commands c hc
    exact hn item hi ho
  · exact hn (e.collects item hi)
  · obtain ⟨r, hr, hrep⟩ := e.evidence c hc
    exact hn r hr hrep

section Sample

-- A baseline case and an expected one, reported by two runs of the tests
def twoCases : FrozenTestContract where
  cases                  := [⟨"a", "test_a.py::test_a"⟩, ⟨"b", "test_a.py::test_b"⟩]
  commands               := [⟨"k1", ["pytest"], "pytest"⟩, ⟨"k2", ["pytest", "-q"], "pytest -q"⟩]
  expectedFailureCaseIds := ["b"]
  cases_required         := by decide
  commands_required      := by decide
  expected_required      := by decide
  expected_known         := by decide

theorem twoCases_functional : twoCases.Functional := by
  unfold FrozenTestContract.Functional
  decide

def flakyRun (outcome : String) : CommandEvidence where
  commandId        := some "k1"
  timedOut         := false
  caseResults      := [⟨"test_a.py::test_a", outcome, "call", some "ValueError"⟩]
  collectionErrors := []

def redRun : CommandEvidence where
  commandId        := some "k2"
  timedOut         := false
  caseResults      := [
    ⟨"test_a.py::test_a", "passed", "call", none⟩,
    ⟨"test_a.py::test_b", "failed", "call", some "AssertionError"⟩
  ]
  collectionErrors := []

end Sample

end Specification
end Container
