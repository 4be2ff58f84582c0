import BridleModel.Provider.Theorems.Generate

namespace Provider

variable {env : Env} {c c' c₀ c₁ c₂ : Conversation} {t t' : Tracker} {name name' : String} {args args' : Json}
variable {result : Json.Dict} {state : ToolState} {turns turns' : List Turn}

section Records

-- The trackers that come from calls that the circuit lets through
inductive Records (env : Env) (t : Tracker) : Tracker → Prop
  | refl : Records env t t
  | record {t' : Tracker} {name : String} {args : Json} {result : Json.Dict} (before : Records env t t')
      (closed : t'.shouldCircuitOpen env name args = none) : Records env t (t'.recordResult env name args result)

theorem Records.trans {t'' : Tracker} (h : Records env t t') (h' : Records env t' t'') : Records env t t'' := by
  induction h' with
  | refl               => exact h
  | record _ closed hi => exact hi.record closed

theorem runCall_records {call : ToolCall} {turn : CallTurn} (h : runCall env c call turn = some c') :
    Records env c.tracker c'.tracker := by
  rw [runCall] at h
  obtain ⟨_, h⟩ := Option.ite_none_left_eq_some.mp h
  obtain ⟨args, _, h⟩ := Option.bind_eq_some_iff.mp h
  split at h
  case h_1             =>
    cases h
    exact .refl
  case h_2 hclosed =>
    obtain ⟨result, _, h⟩ := Option.bind_eq_some_iff.mp h
    cases h
    exact Records.refl.record hclosed

theorem runCalls_records {calls : List ToolCall} {turn : Nat → CallTurn} :
    Records env c.tracker (runCalls env c calls turn).tracker := by
  induction calls generalizing c turn with
  | nil             => exact .refl
  | cons call calls hi =>
    rw [runCalls]
    cases hr : runCall env c call (turn 0) with
    | none    => exact .refl
    | some c' => exact (runCall_records hr).trans hi

theorem round_records {turn : Turn} : Records env c.tracker (round env c turn).tracker := by
  unfold round
  split
  case isTrue  => exact .refl
  case isFalse =>
    split
    case h_1 => exact .refl
    case h_2 =>
      dsimp only
      split
      case isTrue  => exact runCalls_records (c := (c.send.consume env).append _)
      case isFalse =>
        split
        case isTrue  => split <;> exact .refl
        case isFalse => exact .refl

theorem run_records (h : (generateSystem env).run c turns = some c') : Records env c.tracker c'.tracker := by
  refine TransitionSystem.run_preserves (M := generateSystem env) (I := fun c' => Records env c.tracker c'.tracker)
    (fun {s₁ s₂ turn} hs hstep => ?_) .refl h
  have ⟨_, hround⟩ := Option.ite_none_left_eq_some.mp hstep
  cases hround
  exact hs.trans round_records

end Records

section Open

-- The digests in the keys are of one length.
def Fixed (env : Env) : Prop :=
  ∀ args args', (env.argsHash args).length = (env.argsHash args').length

theorem key_injective (hf : Fixed env) (h : Tracker.key env name args = Tracker.key env name' args') : name = name' := by
  have hl := congrArg String.toList h
  simp only [Tracker.key, String.toList_append] at hl
  rw [List.append_assoc, List.append_assoc] at hl
  have hlength : (":".toList ++ (env.argsHash args).toList).length = (":".toList ++ (env.argsHash args').toList).length := by
    have hargs := hf args args'
    rw [← String.length_toList, ← String.length_toList] at hargs
    rw [List.length_append, List.length_append, hargs]
  exact String.toList_inj.mp (List.append_inj_left' hl hlength)

theorem shouldCircuitOpen_congr (hf : Fixed env) (h : Tracker.key env name args = Tracker.key env name' args') :
    t.shouldCircuitOpen env name args = t.shouldCircuitOpen env name' args' := by
  cases key_injective hf h
  rw [Tracker.shouldCircuitOpen, Tracker.shouldCircuitOpen, h]

-- Nothing is recorded for a call whose circuit is open.
theorem Records.open (hf : Fixed env) (h : Records env t t') (ho : (t.shouldCircuitOpen env name args).isSome) :
    t' (Tracker.key env name args) = t (Tracker.key env name args) := by
  induction h with
  | refl                                     => rfl
  | @record t' name' args' result _ closed hi =>
    rw [Tracker.recordResult, Function.update_apply]
    split
    case isFalse    => exact hi
    case isTrue he  =>
      have hopen : (t'.shouldCircuitOpen env name args).isSome := by
        rwa [Tracker.shouldCircuitOpen, hi, ← Tracker.shouldCircuitOpen]
      rw [shouldCircuitOpen_congr hf he, closed] at hopen
      cases hopen

end Open

section Streak

def maxStreak (env : Env) : Int :=
  max 1 (max (max env.nonRetryableMax env.retryableMax) (max env.timeoutMax env.testCommandMax))

-- A call fails so often in a row at most, and was made at least as often.
def Bounded (env : Env) (t : Tracker) : Prop :=
  ∀ key state, t key = some state → state.consecutiveFailures ≤ maxStreak env ∧ state.consecutiveFailures ≤ state.attempts

theorem maxFailures_le : Tracker.maxFailures env name state ≤ maxStreak env := by
  unfold Tracker.maxFailures maxStreak
  split
  case isTrue  => simp
  case isFalse =>
    split
    case isTrue  => simp
    case isFalse => split <;> simp

theorem Bounded.record (h : Bounded env t) (closed : t.shouldCircuitOpen env name args = none) :
    Bounded env (t.recordResult env name args result) := by
  intro key state hs
  rw [Tracker.recordResult, Function.update_apply] at hs
  split at hs
  case isFalse   => exact h key state hs
  case isTrue he =>
    cases hs
    split
    case isFalse => exact ⟨le_trans zero_le_one (le_max_left _ _), Nat.zero_le _⟩
    case isTrue  =>
      cases ht : t (Tracker.key env name args) with
      | none        => exact ⟨le_max_left _ _, le_refl _⟩
      | some before =>
        have ⟨_, hattempts⟩ := h _ _ ht
        rw [Tracker.shouldCircuitOpen, ht] at closed
        dsimp only at closed
        have hmax : Tracker.maxFailures env name before ≤ maxStreak env := maxFailures_le
        refine ⟨?_, Nat.succ_le_succ hattempts⟩
        split at closed
        case isTrue hz  =>
          simp only [Option.getD_some, hz]
          exact le_max_left _ _
        case isFalse hz =>
          split at closed
          case isTrue     => cases closed
          case isFalse hn =>
            simp only [Option.getD_some]
            push_cast
            omega

theorem Records.bounded (h : Records env t t') (hb : Bounded env t) : Bounded env t' := by
  induction h with
  | refl               => exact hb
  | record _ closed hi => exact hi.record closed

end Streak

section Run

-- A call whose circuit is open is not made again in the conversation, and no call fails more often in a row than the
-- largest bound, or once.
theorem circuit_stays_open {systemContent userContent : String} (hf : Fixed env)
    (h₁ : (generateSystem env).run (.start systemContent userContent) turns = some c₁)
    (h₂ : (generateSystem env).run c₁ turns' = some c₂) :
    (∀ name args result, c₁.tracker.shouldCircuitOpen env name args = some result →
      c₂.tracker (Tracker.key env name args) = c₁.tracker (Tracker.key env name args) ∧
        c₂.tracker.shouldCircuitOpen env name args = some result) ∧
      ∀ key state, c₂.tracker key = some state → state.consecutiveFailures ≤ maxStreak env ∧
        state.consecutiveFailures ≤ state.attempts := by
  constructor
  case left  =>
    intro name args result ho
    have hkey := (run_records h₂).open hf (Option.isSome_iff_exists.mpr ⟨result, ho⟩)
    exact ⟨hkey, by rwa [Tracker.shouldCircuitOpen, hkey, ← Tracker.shouldCircuitOpen]⟩
  case right =>
    exact (run_records h₂).bounded ((run_records h₁).bounded fun _ _ h => nomatch h)

-- A call that fails, and the same call again
def failingTurns : List Turn :=
  [
    ⟨false, some ⟨none, none, [⟨.str "call-1", "read_file", .text ""⟩]⟩,
      fun _ => ⟨false, some [("status", .str "failed")]⟩⟩
  ]

def repeatedTurns : List Turn :=
  [
    ⟨false, some ⟨none, none, [⟨.str "call-2", "read_file", .text ""⟩]⟩,
      fun _ => ⟨false, some [("status", .str "completed")]⟩⟩
  ]

theorem circuit_stays_open_sample :
    ∃ c₁ c₂, (generateSystem sampleEnv).run (.start "" "") failingTurns = some c₁ ∧
      (generateSystem sampleEnv).run c₁ repeatedTurns = some c₂ ∧
      ∃ args result, c₁.tracker.shouldCircuitOpen sampleEnv "read_file" args = some result ∧
        c₂.tracker.shouldCircuitOpen sampleEnv "read_file" args = some result := by
  have ⟨c₁, h₁⟩ : ∃ c₁, (generateSystem sampleEnv).run (.start "" "") failingTurns = some c₁ := ⟨_, rfl⟩
  have ⟨c₂, h₂⟩ : ∃ c₂, (generateSystem sampleEnv).run c₁ repeatedTurns = some c₂ := by
    cases h₁
    exact ⟨_, rfl⟩
  have ⟨result, ho⟩ : ∃ result, c₁.tracker.shouldCircuitOpen sampleEnv "read_file" .null = some result := by
    cases h₁
    exact ⟨_, rfl⟩
  exact ⟨c₁, c₂, h₁, h₂, .null, result, ho, ((circuit_stays_open (fun _ _ => rfl) h₁ h₂).left _ _ _ ho).right⟩

end Run

end Provider
