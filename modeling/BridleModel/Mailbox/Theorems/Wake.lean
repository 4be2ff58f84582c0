import BridleModel.Mailbox.Wake

namespace Mail

variable {s s' : WakeSignal} {a : WakeAction} {as : List WakeAction} {v : Nat}

-- The futures that the consumer is waiting for
def Consumer.pending : Consumer → List Nat
  | .waiting _ future false => [future]
  | _                       => []

namespace WakeSignal

-- Where the consumer stands fits the signal.
def Fits (s : WakeSignal) : Prop :=
  match s.consumer with
  | .idle              => True
  | .read v            => v ≤ s.version
  | .bound v _         => s.loop = true ∧ v ≤ s.version
  | .checking v        => s.loop = true ∧ v ≤ s.version
  | .waiting v _ false => s.loop = true ∧ v = s.version ∧ s.closed = false
  | .waiting v _ true  => s.loop = true ∧ v < s.version
  | .returned v _      => s.loop = true ∧ v ≤ s.version

-- The version has moved on, or will when the loop has run its callbacks.
def Ahead (s : WakeSignal) (v : Nat) : Prop :=
  v < s.version ∨ s.closed = true ∨ 0 < s.callbacks

-- Where a notification is that has returned and that the consumer has not heard of yet
def Heard (s : WakeSignal) : Prop :=
  match s.consumer with
  | .idle              => True
  | .read v            => s.Ahead v ∨ s.pendingNotification = true
  | .bound v advance   => s.Ahead v ∨ advance = true
  | .checking v        => s.Ahead v
  | .waiting _ _ false => 0 < s.callbacks
  | .waiting _ _ true  => True
  | .returned v _      => s.Ahead v

structure Sound (s : WakeSignal) : Prop where
  waiters : s.waiters = s.consumer.pending
  fits    : s.Fits
  heard   : s.told = true → s.Heard

theorem sound_new : new.Sound :=
  ⟨rfl, trivial, fun _ => trivial⟩

-- A new version resolves the waiters, and everyone else can see it.
theorem sound_resolveWaiters (hw : s.waiters = s.consumer.pending) (hf : s.Fits) (hv : s.version < s'.version)
    (hl : s'.loop = s.loop) (hw' : s'.waiters = s.waiters) (hc : s'.consumer = s.consumer) :
    s'.resolveWaiters.Sound := by
  rw [resolveWaiters, hw', hc, hw]
  rw [Fits] at hf
  cases h : s.consumer with
  | idle             => exact ⟨rfl, trivial, fun _ => trivial⟩
  | read v           =>
    simp only [h] at hf
    exact ⟨rfl, Nat.le_of_lt (Nat.lt_of_le_of_lt hf hv), fun _ => .inl (.inl (Nat.lt_of_le_of_lt hf hv))⟩
  | bound v advance  =>
    simp only [h] at hf
    exact ⟨rfl, ⟨hl.trans hf.1, Nat.le_of_lt (Nat.lt_of_le_of_lt hf.2 hv)⟩, fun _ => .inl (.inl (Nat.lt_of_le_of_lt hf.2 hv))⟩
  | checking v       =>
    simp only [h] at hf
    exact ⟨rfl, ⟨hl.trans hf.1, Nat.le_of_lt (Nat.lt_of_le_of_lt hf.2 hv)⟩, fun _ => .inl (Nat.lt_of_le_of_lt hf.2 hv)⟩
  | returned v r     =>
    simp only [h] at hf
    exact ⟨rfl, ⟨hl.trans hf.1, Nat.le_of_lt (Nat.lt_of_le_of_lt hf.2 hv)⟩, fun _ => .inl (Nat.lt_of_le_of_lt hf.2 hv)⟩
  | waiting v f done =>
    cases done with
    | true  =>
      simp only [h] at hf
      exact ⟨rfl, ⟨hl.trans hf.1, Nat.lt_trans hf.2 hv⟩, fun _ => trivial⟩
    | false =>
      simp only [h] at hf
      have hd : (false || [f].contains f) = true := by simp
      simp only [Consumer.pending, hd]
      exact ⟨rfl, ⟨hl.trans hf.1, hf.2.1 ▸ hv⟩, fun _ => trivial⟩

theorem sound_advanceOnLoop (hw : s.waiters = s.consumer.pending) (hf : s.Fits) : s.advanceOnLoop.Sound := by
  rw [advanceOnLoop]
  split
  case isFalse   => exact sound_resolveWaiters hw hf (Nat.lt_succ_self s.version) rfl rfl rfl
  case isTrue hc =>
    refine ⟨hw, hf, fun _ => ?_⟩
    rw [Fits] at hf
    rw [Heard]
    cases h : s.consumer with
    | idle             => trivial
    | read             => exact .inl (.inr (.inl hc))
    | bound            => exact .inl (.inr (.inl hc))
    | checking         => exact .inr (.inl hc)
    | returned         => exact .inr (.inl hc)
    | waiting v f done =>
      cases done with
      | true  => trivial
      | false =>
        simp only [h, hc] at hf
        exact absurd hf.2.2 (by decide)

theorem Sound.closeOnLoop (h : s.Sound) : s.closeOnLoop.Sound := by
  rw [WakeSignal.closeOnLoop]
  split
  case isTrue  => exact h
  case isFalse => exact sound_resolveWaiters h.waiters h.fits (Nat.lt_succ_self s.version) rfl rfl rfl

-- What `told` asks for follows when the loop has a callback to run, or a notification is pending for it.
theorem heard_of_callbacks (h : 0 < s.callbacks) : s.Heard := by
  rw [Heard]
  cases s.consumer with
  | idle             => trivial
  | read             => exact .inl (.inr (.inr h))
  | bound            => exact .inl (.inr (.inr h))
  | checking         => exact .inr (.inr h)
  | returned         => exact .inr (.inr h)
  | waiting v f done =>
    cases done with
    | true  => trivial
    | false => exact h

theorem Sound.notify (h : s.Sound) : s.notify.Sound := by
  rw [WakeSignal.notify]
  split
  case isTrue => exact h
  split
  case isTrue   => exact ⟨h.waiters, h.fits, h.heard⟩
  case isFalse hl =>
    refine ⟨h.waiters, h.fits, fun _ => ?_⟩
    have hf := h.fits
    rw [Fits] at hf
    rw [Heard]
    cases hc : s.consumer with
    | idle             => trivial
    | read             => exact .inr rfl
    | bound            => simp only [hc] at hf; exact absurd hf.1 hl
    | checking         => simp only [hc] at hf; exact absurd hf.1 hl
    | returned         => simp only [hc] at hf; exact absurd hf.1 hl
    | waiting v f done =>
      cases done with
      | true  => trivial
      | false => simp only [hc] at hf; exact absurd hf.1 hl

theorem fits_bindRunningLoop (h : s.Fits) : s.bindRunningLoop.Fits := by
  obtain ⟨_, _, _, _, _, _, _, _, consumer, _⟩ := s
  cases consumer with
  | idle             => trivial
  | read             => exact h
  | bound            => exact ⟨rfl, h.2⟩
  | checking         => exact ⟨rfl, h.2⟩
  | returned         => exact ⟨rfl, h.2⟩
  | waiting v f done =>
    cases done with
    | true  => exact ⟨rfl, h.2⟩
    | false => exact ⟨rfl, h.2⟩

theorem heard_bindRunningLoop (hp : s.pendingNotification = false) (h : s.Heard) : s.bindRunningLoop.Heard := by
  obtain ⟨_, _, pending, _, _, _, _, _, consumer, _⟩ := s
  obtain rfl : pending = false := hp
  cases consumer with
  | idle             => trivial
  | read             => exact h
  | bound            => exact h
  | checking         => exact h
  | returned         => exact h
  | waiting v f done =>
    cases done with
    | true  => trivial
    | false => exact h

theorem Sound.check (h : s.Sound) (hc : s.consumer = .checking v) : (s.check v).Sound := by
  obtain ⟨hw, hf, hh⟩ := h
  rw [hc] at hw
  simp only [Fits, hc] at hf
  simp only [Heard, hc] at hh
  rw [WakeSignal.check]
  split
  case isTrue => exact ⟨hw, hf, hh⟩
  case isFalse hcl =>
    split
    case isTrue   => exact ⟨hw, hf, hh⟩
    case isFalse hv =>
      have hv := not_ne_iff.mp hv
      refine ⟨by rw [hw]; rfl, ⟨hf.1, hv.symm, by simpa using hcl⟩, fun ht => ?_⟩
      cases hh ht with
      | inl hl => exact absurd (hv ▸ hl) (Nat.lt_irrefl v)
      | inr hh => exact hh.resolve_left hcl

-- The wait ends, and its future leaves the waiter set.
theorem Sound.finish {f : Nat} {done : Bool} {consumer : Consumer} (h : s.Sound) (hc : s.consumer = .waiting v f done)
    (hi : consumer = .idle ∨ ∃ r, consumer = .returned v r) : (s.finish f consumer).Sound := by
  obtain ⟨hw, hf, hh⟩ := h
  have hwaiters : (s.finish f consumer).waiters = [] := by
    change s.waiters.erase f = []
    rw [hw, hc]
    cases done with
    | true  => rfl
    | false => simp [Consumer.pending]
  cases hi with
  | inl hi =>
    subst hi
    exact ⟨hwaiters, trivial, fun _ => trivial⟩
  | inr hi =>
    obtain ⟨r, rfl⟩ := hi
    simp only [Fits, Heard, hc] at hf hh
    cases done with
    | true  => exact ⟨hwaiters, ⟨hf.1, Nat.le_of_lt hf.2⟩, fun _ => .inl hf.2⟩
    | false => exact ⟨hwaiters, ⟨hf.1, Nat.le_of_eq hf.2.1⟩, fun ht => .inr (.inr (hh ht))⟩

theorem Sound.step (h : s.Sound) (hs : s.act a = some s') : s'.Sound := by
  have hw := h.waiters
  have hf := h.fits
  have hh := h.heard
  cases a with
  | notify   =>
    cases hs
    exact h.notify
  | post     =>
    obtain ⟨_, rfl⟩ := Option.ite_none_right_eq_some.mp hs |>.imp_right Option.some.inj
    exact ⟨hw, hf, fun _ => heard_of_callbacks (Nat.succ_pos _)⟩
  | refuse   =>
    obtain ⟨_, rfl⟩ := Option.ite_none_right_eq_some.mp hs |>.imp_right Option.some.inj
    exact ⟨hw, hf, hh⟩
  | close    =>
    obtain ⟨_, rfl⟩ := Option.ite_none_right_eq_some.mp hs |>.imp_right Option.some.inj
    exact h.closeOnLoop
  | callback =>
    obtain ⟨_, rfl⟩ := Option.ite_none_right_eq_some.mp hs |>.imp_right Option.some.inj
    exact sound_advanceOnLoop hw hf
  | bind     =>
    obtain ⟨_, hs⟩ := Option.ite_none_left_eq_some.mp hs
    by_cases hp : s.pendingNotification
    case pos =>
      rw [if_pos hp] at hs
      cases hs
      exact sound_advanceOnLoop hw (fits_bindRunningLoop hf)
    case neg =>
      rw [if_neg hp] at hs
      cases hs
      exact ⟨hw, fits_bindRunningLoop hf, fun ht => heard_bindRunningLoop (by simpa using hp) (hh ht)⟩
  | read     =>
    have hread : s.waiters = [] → ({ s with consumer := .read s.version, told := false } : WakeSignal).Sound :=
      fun hw => ⟨hw, Nat.le_refl _, fun ht => absurd ht Bool.false_ne_true⟩
    rw [act] at hs
    split at hs
    case h_1 hc => cases hs; exact hread (by rw [hw, hc]; rfl)
    case h_2 hc => cases hs; exact hread (by rw [hw, hc]; rfl)
    case h_3    => cases hs
  | wait     =>
    rw [act] at hs
    split at hs
    case h_2    => cases hs
    case h_1 hc =>
      cases hs
      rw [hc] at hw
      simp only [Fits, Heard, hc] at hf hh
      exact ⟨hw, ⟨rfl, hf⟩, hh⟩
  | advance  =>
    rw [act] at hs
    split at hs
    case h_1 hc =>
      cases hs
      rw [hc] at hw
      simp only [Fits, hc] at hf
      exact sound_advanceOnLoop hw hf
    case h_2 hc =>
      cases hs
      rw [hc] at hw
      simp only [Fits, Heard, hc] at hf hh
      exact ⟨hw, hf, fun ht => (hh ht).resolve_right (by decide)⟩
    case h_3    => cases hs
  | check    =>
    rw [act] at hs
    split at hs
    case h_1 hc => cases hs; exact h.check hc
    case h_2    => cases hs
  | wake     =>
    rw [act] at hs
    split at hs
    case h_1 hc => cases hs; exact h.finish hc (.inr ⟨_, rfl⟩)
    case h_2    => cases hs
  | expire   =>
    rw [act] at hs
    split at hs
    case h_1 hc => cases hs; exact h.finish hc (.inr ⟨_, rfl⟩)
    case h_2    => cases hs
  | cancel   =>
    rw [act] at hs
    split at hs
    case h_1 hc => cases hs; exact h.finish hc (.inl rfl)
    case h_2    => cases hs

end WakeSignal

section Run

-- The consumer has been told since it read the version, and the loop has run the callbacks.
structure Told (s : WakeSignal) : Prop where
  told      : s.told = true
  callbacks : s.callbacks = 0

-- A wait that has begun ends as soon as its consumer goes on, and one that begins ends at once.
theorem signal_not_lost (run : wakeSystem.run .new as = some s) :
    (Told s → ∀ v, (∀ f done, s.consumer = .waiting v f done →
        ∃ r s', s.act .wake = some s' ∧ s'.consumer = .returned v r ∧ r ≠ .timeout) ∧
      (s.consumer = .checking v → ∃ r s', s.act .check = some s' ∧ s'.consumer = .returned v r ∧ r ≠ .timeout) ∧
      ∀ r, s.consumer = .returned v r → v < s.version ∨ s.closed = true) ∧
    ∀ f ∈ s.waiters, ∃ v, s.consumer = .waiting v f false := by
  have h : s.Sound :=
    TransitionSystem.run_preserves (fun hs ha => WakeSignal.Sound.step hs ha) WakeSignal.sound_new run
  obtain ⟨hw, hf, hh⟩ := h
  refine ⟨fun ht v => ⟨fun f done hc => ?waiting, fun hc => ?checking, fun r hc => ?returned⟩, fun f hm => ?waiters⟩
  case waiting  =>
    have hh := hh ht.told
    cases done with
    | false =>
      simp only [WakeSignal.Heard, hc, ht.callbacks] at hh
      exact absurd hh (Nat.lt_irrefl 0)
    | true  =>
      refine ⟨_, _, by rw [WakeSignal.act, hc], rfl, ?_⟩
      split
      case isTrue  => decide
      case isFalse => decide
  case checking =>
    have hh := hh ht.told
    simp only [WakeSignal.Heard, hc] at hh
    have ha : s.act .check = some (s.check v) := by rw [WakeSignal.act, hc]
    rw [WakeSignal.check] at ha
    by_cases hcl : s.closed
    case pos =>
      rw [if_pos hcl] at ha
      exact ⟨_, _, ha, rfl, by decide⟩
    case neg =>
      have hv : s.version ≠ v := by
        cases hh with
        | inl hl => exact Nat.ne_of_gt hl
        | inr hh =>
          rw [ht.callbacks] at hh
          exact absurd (hh.resolve_left hcl) (Nat.lt_irrefl 0)
      rw [if_neg hcl, if_pos hv] at ha
      exact ⟨_, _, ha, rfl, by decide⟩
  case returned =>
    have hh := hh ht.told
    simp only [WakeSignal.Heard, hc] at hh
    rw [WakeSignal.Ahead, ht.callbacks] at hh
    exact hh.imp_right fun hh => hh.resolve_right (Nat.lt_irrefl 0)
  case waiters  =>
    rw [hw] at hm
    cases hc : s.consumer with
    | waiting v f' done =>
      cases done with
      | true  => simp [hc, Consumer.pending] at hm
      | false =>
        rw [hc] at hm
        exact ⟨v, by rw [List.mem_singleton.mp hm]⟩
    | _ => simp [hc, Consumer.pending] at hm

theorem signal_not_lost_woken :
    ∃ s, wakeSystem.run .new [.read, .wait, .advance, .check, .notify, .post, .callback] = some s ∧
      ((Told s → ∀ v, (∀ f done, s.consumer = .waiting v f done →
          ∃ r s', s.act .wake = some s' ∧ s'.consumer = .returned v r ∧ r ≠ .timeout) ∧
        (s.consumer = .checking v → ∃ r s', s.act .check = some s' ∧ s'.consumer = .returned v r ∧ r ≠ .timeout) ∧
        ∀ r, s.consumer = .returned v r → v < s.version ∨ s.closed = true) ∧
      ∀ f ∈ s.waiters, ∃ v, s.consumer = .waiting v f false) := by
  obtain ⟨s, run⟩ : ∃ s, wakeSystem.run .new [.read, .wait, .advance, .check, .notify, .post, .callback] = some s :=
    ⟨_, rfl⟩
  exact ⟨s, run, signal_not_lost run⟩

-- The timeout of the wait expires in the same turn of the loop as the callback.
theorem told_wait_times_out :
    ¬∀ as s, wakeSystem.run .new as = some s → Told s → ∀ v r, s.consumer = .returned v r → r ≠ .timeout := by
  intro h
  exact h [.read, .wait, .advance, .check, .notify, .post, .callback, .expire] _ rfl ⟨rfl, rfl⟩ 0 .timeout rfl rfl

end Run
end Mail
