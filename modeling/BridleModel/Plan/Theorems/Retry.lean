import BridleModel.Plan.Theorems.Run

namespace Plan

-- The call claims the run `r`.
def Db.grants (db : Db) (r : String) : Action → Bool
  | .claim r' now _ _ => r' = r ∧ (db.run? r).any fun row => !row.withheld now
  | _                 => false

-- How often the run has been claimed for execution
def claims (sha256 : String → String) (r : String) (acts : List Action) : Nat :=
  (system sha256).history (fun n db a => if db.grants r a then n + 1 else n) 0 .empty acts

-- A claim that takes over a lease which has expired finds an attempt left, and a deferral that brings
-- its own limit does not bring one below the attempts made.
def Db.Within (db : Db) : Action → Prop
  | .claim r now _ _         => ∀ row, db.run? r = some row → row.state = .running →
    row.withheld now = false → row.attempt < row.maxAttempts
  | .defer r t _ _ (some limit) => ∀ row, db.run? r = some row → row.owned t → row.attempt ≤ limit
  | _                        => True

namespace RunRow

-- The attempts of a run are bounded, and one that is queued has an attempt left.
structure Bounded (row : RunRow) : Prop where
  attempt : row.attempt ≤ row.maxAttempts
  queued  : row.state = .queued → row.attempt < row.maxAttempts

end RunRow

def attempts (row? : Option RunRow) : Nat :=
  row?.elim 0 (·.attempt)

section Step

variable {sha256 : String → String} {db : Db} {a : Action} {r : String} {row row' : RunRow}
  {row? row?' : Option RunRow}

-- A claim takes a run that is queued or whose lease has expired.
theorem RunRow.queued_or_running {now : Timestamp} (h : row.withheld now = false) :
    row.state = .queued ∨ row.state = .running := by
  cases hs : row.state <;> simp_all [RunRow.withheld]

theorem RunStep.bounded (h : RunStep r a (some row) (some row')) (hb : row.Bounded)
    (hr : db.run? r = some row) (hw : db.Within a) : row'.Bounded := by
  cases h
  case same    => exact hb
  case renew   => exact ⟨hb.attempt, hb.queued⟩
  case complete => exact ⟨hb.attempt, by simp [RunRow.completed]⟩
  case claim now s t hf =>
    have hlt : row.attempt < row.maxAttempts := by
      cases RunRow.queued_or_running hf with
      | inl hq => exact hb.queued hq
      | inr hg => exact hw row hr hg hf
    refine ⟨?_, by simp [RunRow.claimed]⟩
    simp only [RunRow.claimed]
    omega
  case defer limit exhausted t code now m retryAt limited decided owned =>
    have hlimit : row.attempt ≤ limit := by
      cases m with
      | none   => exact limited ▸ hb.attempt
      | some m => exact limited ▸ hw row hr owned
    refine ⟨hlimit, fun hq => ?_⟩
    have : ¬limit ≤ row.attempt := by
      refine of_decide_eq_false ?_
      rw [← decided]
      cases exhausted with
      | true  => simp [RunRow.deferred] at hq
      | false => rfl
    exact not_le.mp this

theorem RunStep.enqueued_bounded (h : RunStep r a none (some row')) : row'.Bounded := by
  cases h
  case enqueue m _ _ _ _ _ hp => exact ⟨by simp [RunRow.enqueued]; omega, fun _ => by simp [RunRow.enqueued]; omega⟩

theorem RunStep.attempts_eq (h : RunStep r a row? row?') (hn : ∀ now s t, a ≠ .claim r now s t) :
    attempts row?' = attempts row? := by
  cases h
  case claim => exact absurd rfl (hn _ _ _)
  all_goals rfl

-- Only claims count.
theorem attempts_after :
    attempts ((db.after sha256 a).run? r) =
      attempts (db.run? r) + if db.grants r a then 1 else 0 := by
  have hs : RunStep r a (db.run? r) ((db.after sha256 a).run? r) := Db.after_effect.run_step r
  cases a
  case claim r' now s t =>
    by_cases hid : r' = r
    case neg => simpa [Db.grants, hid] using hs.attempts_eq (by simp [hid])
    case pos =>
      subst hid
      cases hr : db.run? r' with
      | none     => simp [Db.after, Db.perform, Db.claimVerificationRun, Db.grants, hr, Except.orElseKeep]
      | some row =>
        cases hw : row.withheld now <;>
          simp [Db.after, Db.perform, Db.claimVerificationRun, Db.grants, hr, hw, Except.orElseKeep,
            Db.run?_updateRun, attempts, RunRow.claimed]
  all_goals exact hs.attempts_eq (by simp)

theorem claims_concat {acts : List Action} :
    claims sha256 r (acts ++ [a]) =
      claims sha256 r acts + if (Db.empty.afterAll sha256 acts).grants r a then 1 else 0 := by
  have h : claims sha256 r (acts ++ [a]) = _ := TransitionSystem.history_concat system_run rfl
  rw [h]
  split <;> rfl

theorem attempts_eq_claims {acts : List Action} :
    attempts ((Db.empty.afterAll sha256 acts).run? r) = claims sha256 r acts := by
  induction acts using List.reverseRecOn
  case nil => rfl
  case append_singleton acts a hi =>
    rw [Db.afterAll, List.foldl_concat]
    change attempts (((Db.empty.afterAll sha256 acts).after sha256 a).run? r) = _
    rw [attempts_after, hi, claims_concat]

end Step

section Limit

variable {sha256 : String → String} {acts : List Action} {r : String} {db : Db} {row : RunRow}

theorem bounded (h : (system sha256).run .empty acts = some db)
    (hw : ∀ s a t, (system sha256).Occurs .empty acts s a t → s.Within a)
    (hr : db.run? r = some row) : row.Bounded := by
  refine TransitionSystem.run_induction (M := system sha256) (s := .empty)
    (I := fun acts db => (∀ s a t, (system sha256).Occurs .empty acts s a t → s.Within a) →
      ∀ row, db.run? r = some row → row.Bounded) ?_ ?_ h hw row hr
  · intro _ row hr
    cases hr
  · intro acts a s₁ s₂ hrun hi hs hw row hr
    cases hs
    have hs : RunStep r a (s₁.run? r) ((s₁.after sha256 a).run? r) := Db.after_effect.run_step r
    rw [hr] at hs
    cases hrow : s₁.run? r with
    | none      => exact (hrow ▸ hs).enqueued_bounded
    | some row₁ =>
      refine (hrow ▸ hs).bounded ?_ hrow (hw _ _ _ (.last hrun rfl))
      exact hi (fun s a t ho => hw s a t ho.append) row₁ hrow

end Limit

theorem retry_limit (sha256 : String → String) (acts : List Action) (db : Db)
    (h : (system sha256).run .empty acts = some db)
    (hw : ∀ s a t, (system sha256).Occurs .empty acts s a t → s.Within a) (r : String)
    (row : RunRow) (hr : db.run? r = some row) :
    row.attempt ≤ row.maxAttempts ∧ claims sha256 r acts ≤ row.maxAttempts := by
  have hb := bounded h hw hr
  cases h.symm.trans system_run
  have hc : row.attempt = claims sha256 r acts := by
    rw [← attempts_eq_claims, hr]
    rfl
  exact ⟨hb.attempt, hc ▸ hb.attempt⟩

theorem retry_limit_verify : claims Sample.sha256 "run" Sample.verify ≤ 5 := by
  have ⟨row, hr, hm⟩ : ∃ row, (Db.empty.afterAll Sample.sha256 Sample.verify).run? "run" = some row ∧
      row.maxAttempts = 5 := ⟨_, rfl, rfl⟩
  have within (s : Db) (a : Action) (t : Db)
      (ho : (system Sample.sha256).Occurs .empty Sample.verify s a t) : s.Within a := by
    cases ho.cons with
    | inl he => exact he.right ▸ trivial
    | inr ho =>
      have ⟨s₁, h₁, ho⟩ := ho
      cases h₁
      cases ho.cons with
      | inl he =>
        have ⟨hs, ha⟩ := he
        subst hs ha
        intro row hr hrun
        cases hr
        cases hrun
      | inr ho =>
        have ⟨s₂, h₂, ho⟩ := ho
        cases ho.cons with
        | inl he => exact he.right ▸ trivial
        | inr ho => have ⟨_, _, ho⟩ := ho; exact absurd ho TransitionSystem.Occurs.nil
  have ⟨_, h⟩ := retry_limit Sample.sha256 Sample.verify _ system_run within "run" row hr
  rw [hm] at h
  exact Int.ofNat_le.mp h

-- The worker crashes in its only attempt, and the run is claimed again when its lease has expired.
theorem retry_limit_not : ∃ db row,
    (system Sample.sha256).run .empty
      [.enqueue "run" "node" "red" 3 Sample.version₁ none 1, .claim "run" 0 60 "t",
        .claim "run" 61 60 "u"] = some db ∧
    db.run? "run" = some row ∧ row.maxAttempts < row.attempt := by
  have h : ((system Sample.sha256).run .empty
      [.enqueue "run" "node" "red" 3 Sample.version₁ none 1, .claim "run" 0 60 "t",
        .claim "run" 61 60 "u"]).bind (fun db => (db.run? "run").map fun row =>
          (row.maxAttempts, row.attempt)) = some (1, 2) := by decide +kernel
  have ⟨db, hrun, h⟩ := Option.bind_eq_some_iff.mp h
  have ⟨row, hr, h⟩ := Option.map_eq_some_iff.mp h
  have ⟨hm, ha⟩ := Prod.mk.inj h
  exact ⟨db, row, hrun, hr, by rw [hm, ha]; decide⟩

end Plan
