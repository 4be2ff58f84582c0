import BridleModel.Runtime.RetryDelay

namespace RetryDelay

open Python

-- The delay before the attempt that follows this many retries
def delay (base max : Binary64) (retries : ℕ) : ℚ :=
  min (base.value * 2 ^ retries) max.value

variable {log2 : ℚ → ℚ} {base max : Binary64} {retries later : ℕ} {now due : DateTime}

theorem delay_mono (hb : 0 ≤ base.value) (h : retries ≤ later) : delay base max retries ≤ delay base max later :=
  min_le_min_right _ (mul_le_mul_of_nonneg_left (pow_le_pow_right₀ (by norm_num) h) hb)

theorem delay_of_max_le (hb : 0 ≤ base.value) (h : max.value ≤ base.value) : delay base max retries = max.value := by
  have hle : base.value ≤ base.value * 2 ^ retries := le_mul_of_one_le_right hb (one_le_pow₀ (by norm_num))
  exact min_eq_right (h.trans hle)

theorem nackDelay_eq (h : retries < 1024) : nackDelay base max (retries + 1) = some (delay base max retries) := by
  rw [nackDelay, Nat.add_sub_cancel, Binary64.minFloat_mulInt h, delay]

theorem nackDelay_eq_none (h : 1024 ≤ retries) : nackDelay base max (retries + 1) = none := by
  rw [nackDelay, Nat.add_sub_cancel, Binary64.mulInt_eq_none h]
  rfl

theorem outboxDelay_of_max_le (h : max.value ≤ base.value) : outboxDelay log2 base max retries = some max.value := by
  rw [outboxDelay, if_pos h]

theorem outboxDelay_of_infinite (h : ¬max.value ≤ base.value) (hr : Binary64.result (max.value / base.value) = none) :
    outboxDelay log2 base max retries = none := by
  rw [outboxDelay, if_neg h, hr]

theorem outboxDelay_eq {ratio : ℚ} (h : ¬max.value ≤ base.value) (hr : Binary64.result (max.value / base.value) = some ratio)
    (hn : retries < 1024) : outboxDelay log2 base max retries =
      some (delay base max (min retries (saturationExponent log2 ratio))) := by
  have hlt : min retries (saturationExponent log2 ratio) < 1024 := lt_of_le_of_lt (min_le_left _ _) hn
  rw [outboxDelay, if_neg h, hr]
  exact Binary64.minFloat_mulInt hlt

-- Both schedule the attempt for the time that the delay gives, and no later attempt has a shorter delay.
structure OnTime (log2 : ℚ → ℚ) (base max : Binary64) (retries : ℕ) (now due : DateTime) : Prop where
  mailbox : nackRetryAt base max (retries + 1) now = some due
  outbox  : outboxRetryAt log2 base max retries now = some due
  mono    : ∀ later ≥ retries, delay base max retries ≤ delay base max later

-- The outbox stops doubling only where the cap is reached, up to the rounding to microseconds.
inductive Saturates (log2 : ℚ → ℚ) (base max : Binary64) (retries : ℕ) (now due : DateTime) : Prop
  | capped (h : base.value = max.value)
  | doubled {ratio : ℚ} (hr : Binary64.result (max.value / base.value) = some ratio)
      (h : retries ≤ saturationExponent log2 ratio)
  | reached {ratio : ℚ} (hr : Binary64.result (max.value / base.value) = some ratio)
      (h : now.add (timedelta (delay base max (saturationExponent log2 ratio))) = some due)

theorem outboxRetryAt_iff (hb : 0 < base.value) (hm : base.value ≤ max.value) (hn : retries < 1024)
    (fits : now.add (timedelta (delay base max retries)) = some due) :
    outboxRetryAt log2 base max retries now = some due ↔ Saturates log2 base max retries now due := by
  by_cases hle : max.value ≤ base.value
  case pos =>
    rw [delay_of_max_le hb.le hle] at fits
    rw [outboxRetryAt, outboxDelay_of_max_le hle]
    exact ⟨fun _ => .capped (le_antisymm hm hle), fun _ => fits⟩
  case neg =>
    cases hr : Binary64.result (max.value / base.value) with
    | none       =>
      rw [outboxRetryAt, outboxDelay_of_infinite hle hr]
      refine ⟨fun h => (by cases h), fun h => ?_⟩
      cases h with
      | capped h      => exact absurd h.ge hle
      | doubled hr' _ => rw [hr] at hr'; cases hr'
      | reached hr' _ => rw [hr] at hr'; cases hr'
    | some ratio =>
      rw [outboxRetryAt, outboxDelay_eq hle hr hn, Option.bind_some]
      constructor
      case mp  =>
        intro h
        cases Nat.le_total retries (saturationExponent log2 ratio) with
        | inl hs => exact .doubled hr hs
        | inr hs =>
          rw [min_eq_right hs] at h
          exact .reached hr h
      case mpr =>
        intro h
        cases h with
        | capped h      => exact absurd h.ge hle
        | doubled hr' h =>
          obtain rfl := Option.some.inj (hr.symm.trans hr')
          rwa [min_eq_left h]
        | reached hr' h =>
          obtain rfl := Option.some.inj (hr.symm.trans hr')
          cases Nat.le_total retries (saturationExponent log2 ratio) with
          | inl hs => rwa [min_eq_left hs]
          | inr hs => rwa [min_eq_right hs]

section Samples

def one : Binary64 where
  value  := 1
  exact  := ⟨1, 0, by norm_num, by norm_num, by norm_num⟩
  finite := one_lt_pow₀ (by norm_num) (by norm_num)

def sixty : Binary64 where
  value  := 60
  exact  := ⟨60, 0, by norm_num, by norm_num, by norm_num⟩
  finite := lt_of_lt_of_le (show (60 : ℚ) < 2 ^ 6 by norm_num) (pow_le_pow_right₀ (by norm_num) (by norm_num))

def sampleNow : DateTime :=
  ⟨2026, 7, 15, 0, 0, 0, 0, by decide⟩

def sampleDue : DateTime :=
  ⟨2026, 7, 15, 0, 1, 0, 0, by decide⟩

theorem one_le_sixty : one.value ≤ sixty.value := by
  change (1 : ℚ) ≤ 60
  norm_num

theorem delay_sixty (h : 6 ≤ retries) : delay one sixty retries = 60 := by
  have hle : (2 : ℚ) ^ 6 ≤ 2 ^ retries := pow_le_pow_right₀ (by norm_num) h
  refine min_eq_right ?_
  change (60 : ℚ) ≤ 1 * 2 ^ retries
  linarith

theorem sample_fits (h : 6 ≤ retries) : sampleNow.add (timedelta (delay one sixty retries)) = some sampleDue := by
  rw [delay_sixty h]
  decide +kernel

end Samples

end RetryDelay
