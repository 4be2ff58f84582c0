import BridleModel.Plan.Theorems.Gate

namespace Plan

-- The states behind `red_allowed` and before publication.
def ModificationState.pastRed : ModificationState → Bool
  | redAllowed | redVerifying | redConfirmed | implementing | submitted | finalVerifying
  | readyToPublish => true
  | _              => false

-- The transitions that leave the recorded contract alone come from states behind `red_allowed`.
theorem ModificationEvent.pastRed_of_target {e : ModificationEvent} {s : ModificationState}
    (ha : some s ∈ e.allowed) (ht : e.target.pastRed = true) (hr : e ≠ .redAllowed) :
    s.pastRed = true := by
  revert s
  cases e <;> simp [target, ModificationState.pastRed] at ht hr <;> intro s ha <;>
    simp only [allowed, List.mem_singleton, Option.some.injEq] at ha <;> subst ha <;> rfl

-- What a call can do to the table of contracts.
inductive ContractsStep (db : Db) : Table ContractRow ContractRow.keys → Prop
  | same : ContractsStep db db.contracts
  | freeze (fresh : db.contract? n v = none) (inactive : db.activeContract? n = none)
      (insert : db.contracts.insert? ⟨n, v, s, .frozen, none⟩ = some t) : ContractsStep db t
  | invalidate : ContractsStep db (db.invalidated n v reason)

section ContractStep

variable {db : Db} {nodeId : String} {event : ModificationEvent} {current : Option String}
  {payload stored : Json.Dict} {contracts : Table ContractRow ContractRow.keys} {next : Option String}

theorem Db.contractStep_contracts
    (h : db.contractStep nodeId event current payload = .ok ⟨contracts, next, stored⟩) :
    contracts = db.contracts ∨ ∃ v reason, contracts = db.invalidated nodeId v reason := by
  unfold contractStep at h
  repeat' split at h
  all_goals cases h
  all_goals first | exact .inl rfl | exact .inr ⟨_, _, rfl⟩

-- A transition to a state behind `red_allowed` keeps all contracts; it goes on with the version that
-- was recorded before, which `red_allowed` itself compares with the frozen contract.
theorem Db.contractStep_pastRed
    (h : db.contractStep nodeId event current payload = .ok ⟨contracts, next, stored⟩)
    (ht : event.target.pastRed = true) :
    contracts = db.contracts ∧ next = current ∧
      (event = .redAllowed → ∃ row, db.activeContract? nodeId = some row ∧
        current = some row.contractVersion) := by
  unfold contractStep at h
  split at h
  case isTrue he =>
    have hr : event = .redAllowed := he.resolve_left <| by rintro rfl; cases ht
    split at h
    case h_1 => cases h
    case h_2 active ha =>
      split at h <;> cases h
      case isFalse hn =>
        have hc : current = some active.contractVersion := by simpa [hr] using hn
        exact ⟨rfl, hc.symm, fun _ => ⟨active, ha, hc⟩⟩
  case isFalse he =>
    split at h
    case isTrue hi => rcases hi with rfl | rfl <;> cases ht
    case isFalse =>
      split at h <;> cases h
      all_goals exact ⟨rfl, rfl, fun hr => absurd (.inr hr) he⟩

end ContractStep

theorem Effect.contracts {db db' : Db} {a : Action} (h : Effect db a db') :
    ContractsStep db db'.contracts := by
  cases h
  case apply applied =>
    have ⟨_, hc⟩ := applied.contract
    rcases Db.contractStep_contracts hc with hc | ⟨_, _, hc⟩
    · exact hc ▸ .same
    · exact hc ▸ .invalidate
  case freeze hf ha hi _ _ _ => exact .freeze hf ha hi
  case invalidate hc _ _ _   => exact hc ▸ .invalidate
  case block hc _            => exact hc ▸ .same
  all_goals exact .same

namespace ContractsStep

variable {db : Db} {t : Table ContractRow ContractRow.keys} {nodeId version : String}
  {row : ContractRow}

theorem invalidated (h : ContractsStep db t) (hc : db.contract? nodeId version = some row)
    (hs : row.state = .invalidated) : t.lookup (.version nodeId version) = some row := by
  cases h
  case same => exact hc
  case freeze n v s hf _ hi =>
    rw [Table.lookup_insert? hi]
    split
    case isFalse => exact hc
    case isTrue hk =>
      simp only [ContractRow.keys, List.mem_cons, ContractKey.version.injEq, reduceCtorEq,
        List.not_mem_nil, or_false] at hk
      cases hc.symm.trans (hk.1 ▸ hk.2 ▸ hf)
  case invalidate => simp [Db.lookup_invalidated_version, hc, hs]

end ContractsStep

namespace Db

variable {db : Db} {nodeId n v version reason : String} {row : ContractRow}

theorem active_key_iff {m : String} : .active m ∈ row.keys ↔ row.nodeId = m ∧ row.state = .frozen := by
  rw [ContractRow.keys]
  cases row.state <;> simp [eq_comm]

theorem lookup_invalidated_active (ha : db.activeContract? nodeId = some row) :
    (db.invalidated n version reason).lookup (.active nodeId) = some row ∨
      (nodeId = n ∧ row.contractVersion = version) := by
  have ⟨hm, hn, hs⟩ := activeContract?_eq_some_iff.mp ha
  by_cases hv : row.nodeId = n ∧ row.contractVersion = version
  case pos => exact .inr ⟨hn.symm.trans hv.1, hv.2⟩
  case neg =>
    have hf : ¬(row.nodeId = n ∧ row.contractVersion = version ∧ row.state = .frozen) :=
      fun ⟨h₁, h₂, _⟩ => hv ⟨h₁, h₂⟩
    refine .inl <| Table.lookup_eq_some_iff.mpr ⟨?_, active_key_iff.mpr ⟨hn, hs⟩⟩
    exact Table.mem_modify.mpr ⟨row, hm, if_neg (by simpa using hf)⟩

theorem lookup_insert_active {t : Table ContractRow ContractRow.keys} {text : String}
    (hn : db.activeContract? n = none)
    (hi : db.contracts.insert? ⟨n, v, text, .frozen, none⟩ = some t)
    (ha : db.activeContract? nodeId = some row) : t.lookup (.active nodeId) = some row := by
  rw [Table.lookup_insert? hi]
  split
  case isFalse => exact ha
  case isTrue hk =>
    have hk : n = nodeId := active_key_iff.mp hk |>.left
    cases hn.symm.trans (hk ▸ ha)

-- The node's recorded contract is the frozen one.
def Backed (db : Db) (nodeId version : String) : Prop :=
  db.contractOf nodeId = some version ∧
    ∃ row, db.activeContract? nodeId = some row ∧ row.contractVersion = version

end Db

-- A call of `invalidate_test_contract` took the frozen contract from a node behind `red_allowed`.
def Withdrawn (sha256 : String → String) (nodeId version : String) (acts : List Action) : Prop :=
  ∃ pre reason post s, acts = pre ++ .invalidate nodeId version reason :: post ∧
    let db := Db.empty.afterAll sha256 pre
    db.stateOf nodeId = some s ∧ s.pastRed = true ∧ db.Backed nodeId version

theorem Withdrawn.concat {sha256 : String → String} {nodeId version : String} {acts : List Action}
    {a : Action} : Withdrawn sha256 nodeId version acts → Withdrawn sha256 nodeId version (acts ++ [a])
  | ⟨pre, reason, post, s, hs, h⟩ => ⟨pre, reason, post ++ [a], s, by simp [hs], h⟩

-- Behind `red_allowed` the recorded contract is frozen or has been withdrawn.
def ContractInvariant (sha256 : String → String) (nodeId : String) (acts : List Action) (db : Db) :
    Prop :=
  ∀ s, db.stateOf nodeId = some s → s.pastRed = true → ∃ v, db.contractOf nodeId = some v ∧
    (db.Backed nodeId v ∨ (Withdrawn sha256 nodeId v acts ∧
      ∃ row, db.contract? nodeId v = some row ∧ row.state = .invalidated))

namespace ContractInvariant

variable {sha256 : String → String} {nodeId : String} {acts : List Action} {db db' : Db} {a : Action}

-- A step that leaves the workflow of the node alone may only take its frozen contract by a call of
-- `invalidate_test_contract`.
theorem keep (i : ContractInvariant sha256 nodeId acts db) (hdb : db = Db.empty.afterAll sha256 acts)
    (hw : db'.workflow? nodeId = db.workflow? nodeId) (hc : ContractsStep db db'.contracts)
    (ha : ∀ row, db.activeContract? nodeId = some row →
      db'.activeContract? nodeId = some row ∨
        ∃ reason, a = .invalidate nodeId row.contractVersion reason ∧ ∃ row',
          db'.contract? nodeId row.contractVersion = some row' ∧ row'.state = .invalidated) :
    ContractInvariant sha256 nodeId (acts ++ [a]) db' := by
  intro s hs hp
  have hs : db.stateOf nodeId = some s := by rwa [Db.stateOf, hw] at hs
  have hr : db'.contractOf nodeId = db.contractOf nodeId := by rw [Db.contractOf, hw, Db.contractOf]
  obtain ⟨v, hv, hb⟩ := i s hs hp
  refine ⟨v, hr.trans hv, ?_⟩
  rcases hb with ⟨_, row, hrow, rfl⟩ | ⟨hwd, row, hrow, hinv⟩
  · rcases ha row hrow with ha | ⟨reason, rfl, row', hrow', hinv⟩
    · exact .inl ⟨hr.trans hv, row, ha, rfl⟩
    · have hwd : Withdrawn sha256 nodeId row.contractVersion
          (acts ++ [.invalidate nodeId row.contractVersion reason]) :=
        ⟨acts, reason, [], s, rfl, hdb ▸ ⟨hs, hp, hv, row, hrow, rfl⟩⟩
      exact .inr ⟨hwd, row', hrow', hinv⟩
  · exact .inr ⟨hwd.concat, row, hc.invalidated hrow hinv, hinv⟩

-- A transition of the node itself to a state behind `red_allowed`.
theorem applied_self {event : ModificationEvent} {eventId : String} {expected : Option Int}
    {row : EventRow} {next : Option String} (i : ContractInvariant sha256 nodeId acts db)
    (h : Db.Applied db nodeId event eventId expected row next db') :
    ContractInvariant sha256 nodeId (acts ++ [a]) db' := by
  intro s hs hp
  obtain ⟨_, hct⟩ := h.contract
  have hn : nodeId = row.nodeId := h.nodeId_eq.symm
  have hr : db'.contractOf nodeId = next := by rw [h.contractOf, if_pos hn]
  have ht : s = event.target := by
    rw [h.stateOf, if_pos hn, h.to_eq, h.event_eq] at hs
    exact (Option.some.inj hs).symm
  subst ht
  obtain ⟨hkeep, hnext, hred⟩ := Db.contractStep_pastRed hct hp
  have hactive {c : ContractRow} (ha : db.activeContract? nodeId = some c) :
      db'.activeContract? nodeId = some c := by rwa [Db.activeContract?, hkeep]
  by_cases he : event = .redAllowed
  case pos =>
    obtain ⟨c, ha, hcur⟩ := hred he
    have hv : db'.contractOf nodeId = some c.contractVersion := by rw [hr, hnext, hcur]
    exact ⟨c.contractVersion, hv, .inl ⟨hv, c, hactive ha, rfl⟩⟩
  case neg =>
    have hallowed : db.stateOf nodeId ∈ event.allowed := by
      rw [hn, h.from_eq, ← h.event_eq]
      exact h.allowed
    cases hs₀ : db.stateOf nodeId
    case none =>
      have hstart := ModificationEvent.restarts_of_none_mem (hs₀ ▸ hallowed)
      rw [ModificationEvent.restarts_target hstart] at hp
      cases hp
    case some s₀ =>
      have hp₀ := ModificationEvent.pastRed_of_target (hs₀ ▸ hallowed) hp he
      obtain ⟨v, hv, hb⟩ := i s₀ hs₀ hp₀
      have hv' : db'.contractOf nodeId = some v := by rw [hr, hnext, hv]
      refine ⟨v, hv', ?_⟩
      rcases hb with ⟨_, c, ha, hc⟩ | ⟨hw, c, hc, hinv⟩
      · exact .inl ⟨hv', c, hactive ha, hc⟩
      · exact .inr ⟨hw.concat, c, by rwa [Db.contract?, hkeep], hinv⟩

theorem blocked {row : EventRow} {next : Option String} (i : ContractInvariant sha256 nodeId acts db)
    (hdb : db = Db.empty.afterAll sha256 acts) (h : Db.Appends db row next db')
    (he : row.event = .verificationRetryExhausted) (hct : db'.contracts = db.contracts) :
    ContractInvariant sha256 nodeId (acts ++ [a]) db' := by
  by_cases hn : nodeId = row.nodeId
  case neg =>
    refine i.keep hdb (by rw [h.workflow_eq, if_neg hn]) (hct ▸ .same) fun row ha => .inl ?_
    rwa [Db.activeContract?, hct]
  case pos =>
    intro s hs hp
    rw [h.stateOf, if_pos hn, h.to_eq, he] at hs
    cases hs
    cases hp

theorem step (i : ContractInvariant sha256 nodeId acts db)
    (hdb : db = Db.empty.afterAll sha256 acts) (h : Effect db a db') :
    ContractInvariant sha256 nodeId (acts ++ [a]) db' := by
  have hc := h.contracts
  have kept {db' : Db} (hct : db'.contracts = db.contracts) {row : ContractRow}
      (ha : db.activeContract? nodeId = some row) : db'.activeContract? nodeId = some row := by
    rwa [Db.activeContract?, hct]
  have same {db' : Db} (hwf : db'.workflows = db.workflows) :
      db'.workflow? nodeId = db.workflow? nodeId := by
    rw [Db.workflow?, hwf, Db.workflow?]
  cases h
  case apply n _ _ _ row _ _ applied =>
    by_cases hn : nodeId = n
    case pos => subst hn; exact i.applied_self applied
    case neg =>
      obtain ⟨_, hct⟩ := applied.contract
      have hw : db'.workflow? nodeId = db.workflow? nodeId := by
        rw [applied.workflow_eq, if_neg (applied.nodeId_eq ▸ hn)]
      refine i.keep hdb hw hc fun row ha => .inl ?_
      rcases Db.contractStep_contracts hct with hk | ⟨v, reason, hk⟩
      · exact kept hk ha
      · rw [Db.activeContract?, hk]
        exact (Db.lookup_invalidated_active ha).resolve_right fun h => hn h.1
  case freeze hn hi hw _ _ =>
    exact i.keep hdb (same hw) hc fun row ha => .inl <| Db.lookup_insert_active hn hi ha
  case invalidate n v reason hct hw _ _ =>
    refine i.keep hdb (same hw) hc fun row ha => ?_
    have hl : (db.invalidated n v (Python.strip reason)).lookup (.active nodeId) = some row ∨ _ :=
      Db.lookup_invalidated_active ha
    rcases hl with hl | ⟨rfl, rfl⟩
    · exact .inl <| by rwa [Db.activeContract?, hct]
    · obtain ⟨hm, hn, hs⟩ := Db.activeContract?_eq_some_iff.mp ha
      have hrow := Db.contract?_eq_some_iff.mpr ⟨hm, hn, rfl⟩
      refine .inr ⟨reason, rfl, { row with
        state := .invalidated, invalidationReason := some (Python.strip reason) }, ?_, rfl⟩
      rw [Db.contract?, hct, Db.lookup_invalidated_version, hrow]
      simp [hs]
  case block happ hct _ => exact i.blocked hdb happ rfl hct
  all_goals exact i.keep hdb rfl hc fun row ha => .inl ha

theorem afterAll : ContractInvariant sha256 nodeId acts (Db.empty.afterAll sha256 acts) := by
  refine TransitionSystem.run_induction (M := system sha256) (s := .empty)
    (I := ContractInvariant sha256 nodeId) ?_ ?_ system_run
  · intro s hs
    cases hs
  · rintro acts a db _ hrun i ⟨⟩
    exact i.step (Option.some.inj (hrun.symm.trans system_run)) Db.after_effect

end ContractInvariant

section Invalidated

variable {sha256 : String → String} {db : Db} {nodeId version : String} {row : ContractRow}

theorem Db.afterAll_invalidated (hc : db.contract? nodeId version = some row)
    (hs : row.state = .invalidated) (acts : List Action) :
    (db.afterAll sha256 acts).contract? nodeId version = some row := by
  refine TransitionSystem.run_preserves (M := system sha256)
    (I := fun db => db.contract? nodeId version = some row) ?_ hc system_run
  rintro s₁ _ a hc ⟨⟩
  exact after_effect.contracts.invalidated hc hs

theorem Db.freezeTestContract_invalidated (hc : db.contract? nodeId version = some row)
    (hs : row.state = .invalidated) (snapshot : Json.Dict) :
    ∃ e, db.freezeTestContract sha256 nodeId version snapshot = .error e := by
  simp only [freezeTestContract, hc]
  repeat' split
  all_goals first | exact ⟨_, rfl⟩ | simp_all

end Invalidated

theorem gate_contract (sha256 : String → String) (acts : List Action) (nodeId : String) {db : Db}
    (h : (system sha256).run .empty acts = some db) :
    (∀ row ∈ db.contracts, ∀ row' ∈ db.contracts, row.nodeId = nodeId → row'.nodeId = nodeId →
      row.state = .frozen → row'.state = .frozen → row = row') ∧
    (∀ s, db.stateOf nodeId = some s → s.pastRed = true →
      ∃ v, db.contractOf nodeId = some v ∧ (db.Backed nodeId v ∨
        (Withdrawn sha256 nodeId v acts ∧
          ∃ row, db.contract? nodeId v = some row ∧ row.state = .invalidated))) ∧
    (∀ v row, db.contract? nodeId v = some row → row.state = .invalidated → ∀ later,
      let db' := db.afterAll sha256 later
      db'.contract? nodeId v = some row ∧
        ∀ snapshot, ∃ e, db'.freezeTestContract sha256 nodeId v snapshot = .error e) := by
  cases h.symm.trans system_run
  refine ⟨?_, ContractInvariant.afterAll, ?_⟩
  · intro row hm row' hm' hn hn' hs hs'
    exact Table.eq_of_mem_keys (k := .active nodeId) hm hm' (Db.active_key_iff.mpr ⟨hn, hs⟩)
      (Db.active_key_iff.mpr ⟨hn', hs'⟩)
  · intro v row hc hs later db'
    have hc' : db'.contract? nodeId v = some row := Db.afterAll_invalidated hc hs later
    exact ⟨hc', Db.freezeTestContract_invalidated hc' hs⟩

theorem gate_contract_implementing :
    let db := Db.empty.afterAll Sample.sha256 (Sample.publish.take 7)
    db.stateOf "node" = some .implementing ∧ ∃ v, db.contractOf "node" = some v := by
  have hs : (Db.empty.afterAll Sample.sha256 (Sample.publish.take 7)).stateOf "node" =
      some .implementing := by decide +kernel
  have ⟨_, h, _⟩ := gate_contract Sample.sha256 (Sample.publish.take 7) "node" system_run
  have ⟨v, hv, _⟩ := h .implementing hs rfl
  exact ⟨hs, v, hv⟩

-- `invalidate_test_contract` does not look at workflows, and the transitions behind `red_allowed` do
-- not look at contracts.
theorem gate_contract_withdrawn :
    ¬∀ (sha256 : String → String) (acts : List Action) (nodeId : String) (s : ModificationState),
      let db := Db.empty.afterAll sha256 acts
      db.stateOf nodeId = some s → s.pastRed = true →
        ∃ row, db.activeContract? nodeId = some row ∧
          db.contractOf nodeId = some row.contractVersion := by
  intro h
  let acts := Sample.publish.take 4 ++ [.invalidate "node" Sample.version₁ "tests changed"]
  have hs : (Db.empty.afterAll Sample.sha256 acts).stateOf "node" = some .redAllowed := by
    decide +kernel
  have hn : (Db.empty.afterAll Sample.sha256 acts).activeContract? "node" = none := by
    decide +kernel
  have ⟨row, ha, _⟩ := h Sample.sha256 acts "node" .redAllowed hs rfl
  cases hn.symm.trans ha

end Plan
