import BridleModel.Outbox.PathLocks

namespace Outbox.BatchCall

variable {sha256 : Bytes → String} {capacity : Nat} {call : BatchCall} {me : Nat} {w w' w₀ w₁ w₂ : LockWorld}
         {p : LockPosition} {e : Event} {a : LockAction} {as : List LockAction}

-- The locks of the thread change with `acquired`.
theorem ownLockStep_count (h : call.ownLockStep sha256 capacity me w p e = some w') (key : String) :
    w'.locks.count me key + p.acquired.count key = w.locks.count me key + w'.position.acquired.count key := by
  unfold ownLockStep at h
  split at h
  case h_1 =>
    split at h
    case h_1 => cases h; rfl
    case h_2 => cases h; rfl
  case h_2 =>
    split at h
    case h_1 => cases h; rfl
    case h_2 k _ =>
      split at h
      case h_1         => cases h; rfl
      case h_2 hl =>
        cases h
        have hc := Locks.count_acquire me key hl
        simp only [LockPosition.acquired, List.count_cons, true_and, beq_iff_eq, eq_comm (a := k)] at hc ⊢
        omega
  case h_4 =>
    obtain ⟨_, hl, rfl⟩ := Option.map_eq_some_iff.mp h
    have hc := Locks.count_release me key hl
    simp only [LockPosition.acquired, List.count_cons, true_and, beq_iff_eq] at hc ⊢
    simp only [eq_comm (a := key)] at hc
    omega
  case h_11 =>
    obtain ⟨_, hl, rfl⟩ := Option.map_eq_some_iff.mp h
    have hc := Locks.count_release me key hl
    simp only [LockPosition.acquired, List.count_cons, true_and, beq_iff_eq] at hc ⊢
    simp only [eq_comm (a := key)] at hc
    omega
  case h_10 =>
    obtain ⟨_, _, rfl⟩ := Option.map_eq_some_iff.mp h
    rfl
  case h_13 => cases h
  all_goals cases h; rfl

theorem lockStep_count (h : call.lockStep sha256 capacity me w a = some w') (key : String) :
    w'.locks.count me key + w.position.acquired.count key = w.locks.count me key + w'.position.acquired.count key := by
  cases a with
  | own e              => exact ownLockStep_count h key
  | raise              =>
    rw [lockStep] at h
    split at h
    case h_1 hp =>
      cases h
      rw [hp]
      rfl
    case h_2 => cases h
  | acquire thread k =>
    simp only [lockStep, Option.ite_none_left_eq_some, Option.map_eq_some_iff] at h
    obtain ⟨ht, _, hl, rfl⟩ := h
    rw [Locks.count_acquire me key hl, if_neg fun hc => ht hc.1.symm, Nat.add_zero]
  | release thread k =>
    simp only [lockStep, Option.ite_none_left_eq_some, Option.map_eq_some_iff] at h
    obtain ⟨ht, _, hl, rfl⟩ := h
    rw [Locks.count_release me key hl, if_neg fun hc => ht hc.1.symm, Nat.add_zero]
  | change project     =>
    cases h
    rfl

-- What the call holds at any time, beside what its thread held before
theorem run_count (hi : w₀.position = .start) (h : (call.lockSystem sha256 capacity me).run w₀ as = some w) (key : String) :
    w.locks.count me key = w₀.locks.count me key + w.position.acquired.count key := by
  refine TransitionSystem.run_preserves
    (I := fun w => w.locks.count me key = w₀.locks.count me key + w.position.acquired.count key) ?_ ?_ h
  · intro w₁ w₂ a hc hs
    have hk := lockStep_count hs key
    omega
  · rw [hi]
    rfl

-- The thread holds every lock as it did before the call.
def Released (me : Nat) (w₀ w : LockWorld) : Prop :=
  ∀ key, w.locks.count me key = w₀.locks.count me key

theorem released_iff (hi : w₀.position = .start) (h : (call.lockSystem sha256 capacity me).run w₀ as = some w) :
    Released me w₀ w ↔ w.position.acquired = [] := by
  constructor
  · intro hr
    refine List.eq_nil_iff_forall_not_mem.mpr fun key hm => ?_
    have hc := run_count hi h key
    have hp := List.count_pos_iff.mpr hm
    rw [hr key] at hc
    omega
  · intro hn key
    rw [run_count hi h key, hn]
    rfl

-- The exceptions that go past every `finally`: a snapshot can't be read, or `path_lock` refuses a path while others
-- are locked already.
def Admitted (w : LockWorld) (a : LockAction) : Prop :=
  match w.position, a with
  | .reading _ acquired _ (_ :: _), .own .fault        => acquired = []
  | .acquiring _ acquired (path :: _), .own .proceed   => acquired = [] ∨ ∃ key, normalizePath path = .ok key
  | _, _                                               => True

theorem escaped_of_not_admitted (h : call.lockStep sha256 capacity me w a = some w') (ha : ¬Admitted w a) :
    ∃ acquired, w'.position = .escaped acquired ∧ acquired ≠ [] := by
  unfold Admitted at ha
  split at ha
  case h_1 hp =>
    rw [lockStep, hp] at h
    cases h
    exact ⟨_, rfl, ha⟩
  case h_2 path _ hp =>
    rw [not_or] at ha
    rw [lockStep, hp, ownLockStep] at h
    cases hn : normalizePath path with
    | ok key  => exact absurd ⟨key, hn⟩ ha.2
    | error _ =>
      rw [hn] at h
      cases h
      exact ⟨_, rfl, ha.1⟩
  case h_3 => exact absurd trivial ha

-- After the call the other threads go on.
theorem lockStep_ended (h : call.lockStep sha256 capacity me w a = some w') (he : w.position.ended = true) :
    w'.position = w.position := by
  cases a with
  | own e              =>
    rw [lockStep] at h
    cases hp : w.position with
    | escaped _ => simp [hp, ownLockStep] at h
    | left _    => simp [hp, ownLockStep] at h
    | _         => simp [hp, LockPosition.ended] at he
  | raise              =>
    rw [lockStep] at h
    split at h
    case h_1 hp => simp [hp, LockPosition.ended] at he
    case h_2    => cases h
  | acquire thread key =>
    simp only [lockStep, Option.ite_none_left_eq_some, Option.map_eq_some_iff] at h
    obtain ⟨_, _, _, rfl⟩ := h
    rfl
  | release thread key =>
    simp only [lockStep, Option.ite_none_left_eq_some, Option.map_eq_some_iff] at h
    obtain ⟨_, _, _, rfl⟩ := h
    rfl
  | change project     =>
    cases h
    rfl

-- An admitted step of the call itself escapes with no lock only.
theorem ownLockStep_ended (hp : w.position = p) (h : call.ownLockStep sha256 capacity me w p e = some w')
    (ha : Admitted w (.own e)) (he : w'.position.ended = true) : w'.position.acquired = [] := by
  unfold Admitted at ha
  rw [hp] at ha
  unfold ownLockStep at h
  split at h
  case h_1 =>
    split at h
    case h_1 => cases h; rfl
    case h_2 => cases h; cases he
  case h_2 =>
    split at h
    case h_1 hn =>
      cases h
      cases ha with
      | inl ha => exact ha
      | inr ha =>
        obtain ⟨_, hk⟩ := ha
        cases hn.symm.trans hk
    case h_2 =>
      split at h
      case h_1 => cases h; cases he
      case h_2 => cases h; cases he
  case h_4 =>
    obtain ⟨_, _, rfl⟩ := Option.map_eq_some_iff.mp h
    cases he
  case h_7 =>
    cases h
    exact ha
  case h_10 =>
    obtain ⟨_, _, rfl⟩ := Option.map_eq_some_iff.mp h
    cases he
  case h_11 =>
    obtain ⟨_, _, rfl⟩ := Option.map_eq_some_iff.mp h
    cases he
  case h_5  => cases h; rfl
  case h_12 => cases h; rfl
  case h_13 => cases h
  all_goals cases h; cases he

theorem lockStep_admitted (h : call.lockStep sha256 capacity me w a = some w') (ha : Admitted w a)
    (he : w.position.ended = true → w.position.acquired = []) : w'.position.ended = true → w'.position.acquired = [] := by
  intro hw'
  by_cases hw : w.position.ended = true
  case pos =>
    rw [lockStep_ended h hw]
    exact he hw
  case neg =>
    cases a with
    | own e              => exact ownLockStep_ended rfl h ha hw'
    | raise              =>
      rw [lockStep] at h
      split at h
      case h_1 => cases h; cases hw'
      case h_2 => cases h
    | acquire thread key =>
      simp only [lockStep, Option.ite_none_left_eq_some, Option.map_eq_some_iff] at h
      obtain ⟨_, _, _, rfl⟩ := h
      exact absurd hw' hw
    | release thread key =>
      simp only [lockStep, Option.ite_none_left_eq_some, Option.map_eq_some_iff] at h
      obtain ⟨_, _, _, rfl⟩ := h
      exact absurd hw' hw
    | change project     =>
      cases h
      exact absurd hw' hw

theorem run_ended (h : (call.lockSystem sha256 capacity me).run w as = some w') (he : w.position.ended = true) :
    w'.position = w.position := by
  refine TransitionSystem.run_preserves (I := fun w' => w'.position = w.position) ?_ rfl h
  intro w₁ w₂ a hw hs
  rw [lockStep_ended hs (by rw [hw]; exact he), hw]

-- `commit_many` has released its locks exactly if no exception has gone past its `finally` clauses.
theorem commitMany_releases_iff (hi : w₀.position = .start)
    (h : (call.lockSystem sha256 capacity me).run w₀ as = some w) (he : w.position.ended = true) :
    Released me w₀ w ↔ ∀ {w₁ a w₂}, (call.lockSystem sha256 capacity me).Occurs w₀ as w₁ a w₂ → Admitted w₁ a := by
  rw [released_iff hi h]
  constructor
  · intro hn w₁ a w₂ ho
    by_contra ha
    obtain ⟨acquired, hp, hne⟩ := escaped_of_not_admitted ho.step ha
    obtain ⟨post, hpost⟩ := ho.rest h
    have hend := run_ended hpost (by rw [hp]; rfl)
    rw [hend, hp] at hn
    exact hne hn
  · intro ha
    refine TransitionSystem.Occurs.run_invariant (I := fun w => w.position.ended = true → w.position.acquired = []) ?_ ?_ h he
    · rw [hi]
      exact fun h => by cases h
    · exact fun ho hI => lockStep_admitted ho.step (ha ho) hI

-- The locks that the call still has to release are its own, so nothing keeps it from releasing them.
theorem release_isSome (hi : w₀.position = .start) (h : (call.lockSystem sha256 capacity me).run w₀ as = some w)
    {key : String} (hk : key ∈ w.position.acquired) : (w.locks.release me key).isSome := by
  have hc := run_count hi h key
  have hp := List.count_pos_iff.mpr hk
  exact Locks.release_isSome (by omega)

section Unreadable

-- A file that can't be read when the snapshots are taken
def unreadable : BatchCall where
  changes  := [⟨"modify", "a.py", "", some "x = 1", "0", "codechanged-0", "2026-01-01T00:00:00+00:00"⟩]
  rollback := fun _ => "1"

def unlocked : LockWorld :=
  ⟨⟨fun _ => none, .empty⟩, fun _ => none, .start⟩

def untilSnapshot : List LockAction :=
  [.own .proceed, .own .proceed, .own .proceed, .own .fault]

def afterSnapshot : LockWorld :=
  { unlocked with
    locks    := Function.update unlocked.locks "a.py" (some (1, 0))
    position := .escaped ["a.py"] }

theorem run_unreadable (sha256 : Bytes → String) (capacity : Nat) :
    (unreadable.lockSystem sha256 capacity 1).run unlocked untilSnapshot = some afterSnapshot :=
  rfl

theorem commitMany_releases_unreadable : Released 1 unlocked afterSnapshot ↔
    ∀ {w₁ a w₂}, (unreadable.lockSystem (fun _ => "") 1000 1).Occurs unlocked untilSnapshot w₁ a w₂ → Admitted w₁ a :=
  commitMany_releases_iff rfl (run_unreadable _ _) rfl

theorem commitMany_not_releases : ¬∀ (call : BatchCall) (as : List LockAction) (w : LockWorld),
    (call.lockSystem (fun _ => "") 1000 1).run unlocked as = some w → w.position.ended = true → Released 1 unlocked w := by
  intro h
  have hr := h unreadable untilSnapshot afterSnapshot (run_unreadable _ _) rfl "a.py"
  simp [Locks.count, afterSnapshot, unlocked] at hr

end Unreadable

end Outbox.BatchCall
