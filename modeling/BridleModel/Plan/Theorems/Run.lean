import BridleModel.Plan.System

namespace Plan

-- What one call does to the verification run `r`.
inductive RunStep (r : String) : Action → Option RunRow → Option RunRow → Prop
  | same : RunStep r a row? row?
  | enqueue (positive : (1 : Int) ≤ m) :
      RunStep r (.enqueue r n ph.value s v c m) none (some (.enqueued r n ph s v c m))
  | claim (free : row.withheld now = false) :
      RunStep r (.claim r now s t) (some row) (some (row.claimed now s t))
  | renew (owned : row.owned t = true) :
      RunStep r (.renew r t now s) (some row) (some (row.renewed now s))
  | complete (owned : row.owned t = true) :
      RunStep r (.complete r t outcome code) (some row) (some (row.completed outcome code))
  | defer (limited : limit = m.getD row.maxAttempts)
      (decided : exhausted = decide (limit ≤ (row.attempt : Int))) (owned : row.owned t = true) :
      RunStep r (.defer r t code now m) (some row) (some (row.deferred limit exhausted retryAt code))

namespace RunRow

variable {row : RunRow} {now : Timestamp} {s : Int} {t : String}

def Terminal (row : RunRow) : Prop :=
  row.state = .completed ∨ row.state = .failed

theorem Terminal.withheld (h : row.Terminal) : row.withheld now = true := by
  rcases h with h | h <;> simp [RunRow.withheld, h]

theorem running_of_owned (h : row.owned t = true) : row.state = .running := by
  simp only [owned, decide_eq_true_eq] at h
  exact h.left

theorem leaseToken_of_owned (h : row.owned t = true) : row.leaseToken = some t := by
  simp only [owned, decide_eq_true_eq] at h
  exact h.right

theorem Terminal.not_owned (h : row.Terminal) : ¬row.owned t = true := by
  intro ho
  rcases h with h | h <;> cases h.symm.trans (running_of_owned ho)

theorem deferred_not_running {limit : Int} {exhausted : Bool} {retryAt : Option Timestamp}
    {code : String} : (row.deferred limit exhausted retryAt code).state ≠ .running := by
  cases exhausted <;> simp [deferred]

theorem deferred_not_completed {limit : Int} {exhausted : Bool} {retryAt : Option Timestamp}
    {code : String} : (row.deferred limit exhausted retryAt code).state ≠ .completed := by
  cases exhausted <;> simp [deferred]

theorem claimed_ne : row.claimed now s t ≠ row := by
  intro h
  have := congrArg (·.attempt) h
  simp [claimed] at this

end RunRow

namespace RunStep

variable {db : Db} {a : Action} {r r' : String} {row : RunRow} {row? : Option RunRow}

theorem terminal (h : RunStep r a (some row) row?) (ht : row.Terminal) : row? = some row := by
  cases h
  case same        => rfl
  case claim hf    => cases hf.symm.trans ht.withheld
  case renew ho    => exact absurd ho ht.not_owned
  case complete ho => exact absurd ho ht.not_owned
  case defer ho    => exact absurd ho ht.not_owned

-- What identifies a run stays.
theorem source (h : RunStep r a (some row) row?) : ∃ row', row? = some row' ∧ row'.source = row.source := by
  cases h <;> exact ⟨_, rfl, rfl⟩

theorem update {g : RunRow → Bool} {f : RunRow → RunRow} {hf} (hr : db.run? r' = some row)
    (hg : g row = true) (hs : RunStep r' a (some row) (some (f row))) :
    RunStep r a (db.run? r) ((db.updateRun r' g f hf).run? r) := by
  rw [Db.run?_updateRun]
  split
  case isTrue h  => subst h; simpa [hr, hg] using hs
  case isFalse h => exact .same

theorem insert {runs : Table RunRow RunRow.keys} (hi : db.runs.insert? row = some runs)
    (hs : RunStep row.runId a none (some row)) :
    RunStep r a (db.run? r) (({ db with runs } : Db).run? r) := by
  have hl : ({ db with runs } : Db).run? r = if r = row.runId then some row else db.run? r := by
    simp [Db.run?, Table.lookup_insert? hi, RunRow.keys, RunRow.source]
  rw [hl]
  split
  case isFalse => exact .same
  case isTrue h =>
    have hn : db.run? r = none := Table.lookup_eq_none_iff.mpr fun _ hm hk =>
      Table.insert?_fresh hi hm hk (h ▸ List.mem_cons_self)
    rw [hn]
    exact h ▸ hs

end RunStep

theorem Effect.run_step {db db' : Db} {a : Action} (h : Effect db a db') (r : String) :
    RunStep r a (db.run? r) (db'.run? r) := by
  have congr {db₁ db₂ : Db} (h : db₂.runs = db₁.runs) : db₂.run? r = db₁.run? r := by
    rw [Db.run?, h, Db.run?]
  cases h
  case none                => exact .same
  case apply applied       => exact congr applied.runs_eq ▸ .same
  case freeze hr           => exact congr hr ▸ .same
  case invalidate hr       => exact congr hr ▸ .same
  case enqueue hp _ hi     => exact .insert hi (.enqueue hp)
  case claim hr hf         => exact .update hr rfl (.claim hf)
  case renew hr ho hg      => exact .update hr hg (.renew ho)
  case complete hr ho      => exact .update hr ho (.complete ho)
  case defer hl hlt hr ho  =>
    exact .update hr ho (.defer hl (decide_eq_false (not_le.mpr hlt)).symm ho)
  case block hl hle hr ho _ _ _ hrn =>
    exact congr hrn ▸ .update hr ho (.defer hl (decide_eq_true hle).symm ho)

-- The token of the last claim of `r` that succeeded.
def noteClaim (r : String) (latest : Option String) (db : Db) : Action → Option String
  | .claim r' now s t =>
    match db.claimVerificationRun r' now s t with
    | .ok (_, some _) => if r' = r then some t else latest
    | _               => latest
  | _ => latest

def latestClaim (sha256 : String → String) (r : String) (acts : List Action) : Option String :=
  (system sha256).history (noteClaim r) none .empty acts

section NoteClaim

variable {sha256 : String → String} {db : Db} {a : Action} {r : String} {row : RunRow}
  {latest : Option String}

theorem noteClaim_claim {now : Timestamp} {s : Int} {t : String} (hr : db.run? r = some row)
    (hf : row.withheld now = false) : noteClaim r latest db (.claim r now s t) = some t := by
  simp [noteClaim, Db.claimVerificationRun, hr, hf, Db.run?_updateRun]

-- A claim that succeeds counts an attempt, so that a run which stayed as it was has not been claimed.
theorem noteClaim_same (h : (db.after sha256 a).run? r = db.run? r) :
    noteClaim r latest db a = latest := by
  cases a
  case claim r' now s t =>
    cases hc : db.claimVerificationRun r' now s t
    case error => simp [noteClaim, hc]
    case ok out =>
      have ⟨db', res⟩ := out
      have ⟨row, hr, hcases⟩ := Db.claimVerificationRun_cases hc
      rcases hcases with ⟨_, _, rfl⟩ | ⟨_, rfl, rfl⟩
      · simp [noteClaim, hc]
      · simp only [noteClaim, hc, ite_eq_right_iff]
        rintro rfl
        simp only [Db.after, Db.perform, hc, Except.map_ok, Except.orElseKeep_ok,
          Db.run?_updateRun, hr, if_true, Option.map_some, Option.some.injEq] at h
        exact absurd h RunRow.claimed_ne
  all_goals rfl

theorem latestClaim_concat {acts : List Action} :
    latestClaim sha256 r (acts ++ [a]) =
      noteClaim r (latestClaim sha256 r acts) (Db.empty.afterAll sha256 acts) a :=
  TransitionSystem.history_concat system_run rfl

end NoteClaim

-- The run `r` got its outcome from a call that presented the token of the latest claim.
def StoredBy (sha256 : String → String) (r : String) (acts : List Action) (outcome : Json.Dict) :
    Prop :=
  ∃ pre t code post, acts = pre ++ .complete r t outcome code :: post ∧
    latestClaim sha256 r pre = some t ∧
    ∀ row, (Db.empty.afterAll sha256 pre).run? r = some row → row.outcome = none

theorem StoredBy.concat {sha256 : String → String} {r : String} {acts : List Action}
    {outcome : Json.Dict} {a : Action} :
    StoredBy sha256 r acts outcome → StoredBy sha256 r (acts ++ [a]) outcome
  | ⟨pre, t, code, post, hs, h⟩ => ⟨pre, t, code, post ++ [a], by simp [hs], h⟩

structure RunInvariant (sha256 : String → String) (r : String) (acts : List Action) (row : RunRow) :
    Prop where
  outcome : row.outcome.isSome ↔ row.state = .completed
  token   : row.state = .running → row.leaseToken = latestClaim sha256 r acts
  stored  : ∀ outcome ∈ row.outcome, StoredBy sha256 r acts outcome

namespace RunInvariant

variable {sha256 : String → String} {r : String} {acts : List Action} {row row' : RunRow}
  {a : Action}

theorem outcome_of_running (i : RunInvariant sha256 r acts row) (h : row.state ≠ .completed) :
    row.outcome = none :=
  Option.not_isSome_iff_eq_none.mp fun ho => h (i.outcome.mp ho)

theorem step {db : Db} (hdb : db = Db.empty.afterAll sha256 acts)
    (hi : ∀ row, db.run? r = some row → RunInvariant sha256 r acts row)
    (hr' : (db.after sha256 a).run? r = some row') : RunInvariant sha256 r (acts ++ [a]) row' := by
  have hl : latestClaim sha256 r (acts ++ [a]) = noteClaim r (latestClaim sha256 r acts) db a :=
    hdb ▸ latestClaim_concat
  have hs : RunStep r a (db.run? r) ((db.after sha256 a).run? r) := Db.after_effect.run_step r
  rw [hr'] at hs
  generalize hrow : db.run? r = row? at hs
  cases hs
  case same =>
    have i := hi _ hrow
    have hn : noteClaim r (latestClaim sha256 r acts) db a = _ :=
      noteClaim_same (hr'.trans hrow.symm)
    exact {
      outcome := i.outcome
      token   := fun h => (i.token h).trans (hl.trans hn).symm
      stored  := fun o ho => (i.stored o ho).concat
    }
  case enqueue =>
    exact {
      outcome := by simp [RunRow.enqueued]
      token   := by intro h; cases h
      stored  := by intro o ho; cases ho
    }
  case claim hf =>
    have i := hi _ hrow
    have hn := by
      refine i.outcome_of_running fun h => ?_
      cases hf.symm.trans (RunRow.Terminal.withheld (.inl h))
    exact {
      outcome := by simp [RunRow.claimed, hn]
      token   := fun _ => (hl.trans (noteClaim_claim hrow hf)).symm
      stored  := fun o ho => (i.stored o ho).concat
    }
  case renew ho =>
    have i := hi _ hrow
    exact {
      outcome := i.outcome
      token   := fun h => (i.token h).trans hl.symm
      stored  := fun o ho => (i.stored o ho).concat
    }
  case complete ho =>
    have i := hi _ hrow
    have hs := RunRow.running_of_owned ho
    refine {
      outcome := by simp [RunRow.completed]
      token   := by intro h; cases h
      stored  := ?_
    }
    rintro _ ⟨⟩
    refine ⟨acts, _, _, [], rfl, ?_, ?_⟩
    · rw [← i.token hs, RunRow.leaseToken_of_owned ho]
    · intro row₀ hr₀
      cases hrow.symm.trans (hdb ▸ hr₀)
      exact i.outcome_of_running (by simp [hs])
  case defer ho =>
    have i := hi _ hrow
    have hn := i.outcome_of_running (by simp [RunRow.running_of_owned ho])
    exact {
      outcome := iff_of_false (by simp [RunRow.deferred, hn]) RunRow.deferred_not_completed
      token   := fun h => absurd h RunRow.deferred_not_running
      stored  := fun o ho => (i.stored o ho).concat
    }

theorem afterAll (hr : (Db.empty.afterAll sha256 acts).run? r = some row) :
    RunInvariant sha256 r acts row := by
  refine TransitionSystem.run_induction (M := system sha256) (s := .empty)
    (I := fun acts db => ∀ row, db.run? r = some row → RunInvariant sha256 r acts row)
    ?_ ?_ system_run row hr
  · intro row hr
    cases hr
  · rintro acts a db _ hrun hi ⟨⟩ row hr
    exact step (Option.some.inj (hrun.symm.trans system_run)) hi hr

end RunInvariant

section Terminal

variable {sha256 : String → String} {db : Db} {r : String} {row : RunRow}

theorem Db.afterAll_terminal (hr : db.run? r = some row) (ht : row.Terminal) (acts : List Action) :
    (db.afterAll sha256 acts).run? r = some row := by
  refine TransitionSystem.run_preserves (M := system sha256) (I := fun db => db.run? r = some row)
    ?_ hr system_run
  rintro s₁ _ a hs ⟨⟩
  have h : RunStep r a (s₁.run? r) ((s₁.after sha256 a).run? r) := after_effect.run_step r
  exact (hs ▸ h).terminal ht

theorem Db.claimVerificationRun_terminal (hr : db.run? r = some row) (ht : row.Terminal)
    (now : Timestamp) (leaseSeconds : Int) (token : String) :
    db.claimVerificationRun r now leaseSeconds token = .ok (db, none) := by
  simp [claimVerificationRun, hr, ht.withheld]

theorem Db.enqueueVerificationRun_source {db' : Db} {r' : String} {candidate : Option String}
    {limit : Int} {row' : RunRow} (hm : row ∈ db.runs)
    (h : db.enqueueVerificationRun r' row.nodeId row.phase.value row.sourceRevision
      row.contractVersion candidate limit = .ok (db', row')) : db' = db ∧ row' = row := by
  have ⟨ph, hp, _, hs, hcases⟩ := enqueueVerificationRun_cases h
  have hph : ph = row.phase := by cases ph <;> cases hrp : row.phase <;> simp_all [Phase.value]
  subst hph
  rcases hcases with ⟨rfl, hr⟩ | ⟨hn, _⟩
  · refine ⟨rfl, ?_⟩
    have hm' : row' ∈ db'.runs := run?_eq_some_iff.mp hr |>.left
    exact Table.eq_of_mem_keys (k := row.source) hm' hm
      (by rw [RunRow.keys, hs]; simp [RunRow.source]) (by simp [RunRow.keys])
  · exact absurd (by simp [RunRow.keys, RunRow.source]) (Table.lookup_eq_none_iff.mp hn row hm)

end Terminal

theorem verification_run_life_cycle (sha256 : String → String) (acts : List Action) (r : String)
    {db : Db} {row : RunRow} (h : (system sha256).run .empty acts = some db)
    (hr : db.run? r = some row) :
    (∀ outcome, row.outcome = some outcome →
      StoredBy sha256 r acts outcome ∧ ∀ later, (db.afterAll sha256 later).run? r = some row) ∧
    (∀ token outcome code db' res,
      db.completeVerificationRun r token outcome code = .ok (db', res) →
      ∃ row' stored, res = some row' ∧ db'.run? r = some row' ∧ row'.outcome = some stored) ∧
    (row.state = .completed ∨ row.state = .failed → ∀ later now leaseSeconds token,
      let db' := db.afterAll sha256 later
      db'.run? r = some row ∧ db'.claimVerificationRun r now leaseSeconds token = .ok (db', none)) ∧
    (∀ row' ∈ db.runs, row'.source = row.source → row' = row) ∧
    (∀ r' candidateId maxAttempts db' row',
      db.enqueueVerificationRun r' row.nodeId row.phase.value row.sourceRevision
        row.contractVersion candidateId maxAttempts = .ok (db', row') → db' = db ∧ row' = row) := by
  cases h.symm.trans system_run
  have i := RunInvariant.afterAll hr
  have hm := Db.run?_eq_some_iff.mp hr |>.left
  refine ⟨?_, ?_, ?_, ?_, ?_⟩
  · intro outcome ho
    have ht : row.Terminal := .inl <| i.outcome.mp (by simp [ho])
    exact ⟨i.stored outcome ho, Db.afterAll_terminal hr ht⟩
  · intro token outcome code db' res hc
    have ⟨row', hr', hcases⟩ := Db.completeVerificationRun_cases hc
    cases hr.symm.trans hr'
    rcases hcases with ⟨hs, rfl, rfl⟩ | ⟨ho, rfl, rfl⟩
    · have ⟨stored, ho⟩ := Option.isSome_iff_exists.mp (i.outcome.mpr hs)
      exact ⟨row, stored, rfl, hr, ho⟩
    · exact ⟨_, outcome, rfl, by simp [Db.run?_updateRun, hr, ho], rfl⟩
  · intro ht later now s t db'
    have hr' : db'.run? r = some row := Db.afterAll_terminal hr ht later
    exact ⟨hr', Db.claimVerificationRun_terminal hr' ht now s t⟩
  · intro row' hm' hs
    exact Table.eq_of_mem_keys (k := row.source) hm' hm (by simp [RunRow.keys, hs])
      (by simp [RunRow.keys])
  · intro r' candidateId maxAttempts db' row' he
    exact Db.enqueueVerificationRun_source hm he

theorem verification_run_life_cycle_completed :
    StoredBy Sample.sha256 "run" Sample.verify Sample.outcome := by
  have ⟨row, hr, ho⟩ : ∃ row, (Db.empty.afterAll Sample.sha256 Sample.verify).run? "run" = some row ∧
      row.outcome = some Sample.outcome := ⟨_, rfl, rfl⟩
  have ⟨h, _⟩ := verification_run_life_cycle Sample.sha256 Sample.verify "run" system_run hr
  exact h Sample.outcome ho |>.left

end Plan
