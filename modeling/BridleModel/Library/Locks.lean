import Mathlib.Logic.Function.Basic

universe u v

-- Reentrant locks by their keys: the owner of a lock has acquired it once, and as often again as the number says.
abbrev Locks (θ : Type u) (κ : Type v) :=
  κ → Option (θ × Nat)

namespace Locks

variable {θ : Type u} {κ : Type v} [DecidableEq θ] [DecidableEq κ]

-- How often a thread holds a lock
def count (locks : Locks θ κ) (t : θ) (k : κ) : Nat :=
  match locks k with
  | none        => 0
  | some (o, n) => if o = t then n + 1 else 0

-- `acquire(blocking=False)`; `none` if somebody else owns the lock
def acquire (locks : Locks θ κ) (t : θ) (k : κ) : Option (Locks θ κ) :=
  match locks k with
  | none        => some (Function.update locks k (some (t, 0)))
  | some (o, n) => if o = t then some (Function.update locks k (some (t, n + 1))) else none

-- `release()`; `none` if somebody else owns the lock
def release (locks : Locks θ κ) (t : θ) (k : κ) : Option (Locks θ κ) :=
  match locks k with
  | none        => none
  | some (o, n) => if o = t then some (Function.update locks k (if n = 0 then none else some (t, n - 1))) else none

variable {locks locks' : Locks θ κ} {t t' : θ} {k k' : κ}

variable (t' k') in
theorem count_acquire (h : locks.acquire t k = some locks') :
    locks'.count t' k' = locks.count t' k' + if t' = t ∧ k' = k then 1 else 0 := by
  have hu : ∃ n, locks' = Function.update locks k (some (t, n)) ∧ n = locks.count t k ∧ ∀ o, o ≠ t → locks.count o k = 0 := by
    rw [acquire] at h
    cases hl : locks k with
    | none   => exact ⟨0, by simpa [hl] using h.symm, by simp [count, hl], fun o _ => by simp [count, hl]⟩
    | some p =>
      obtain ⟨o, n⟩ := p
      simp only [hl, Option.ite_none_right_eq_some, Option.some.injEq] at h
      obtain ⟨rfl, h⟩ := h
      refine ⟨n + 1, h.symm, by simp [count, hl], fun t' ht => ?_⟩
      simp [count, hl, ht.symm]
  obtain ⟨n, rfl, hn, ho⟩ := hu
  by_cases hk : k' = k
  case neg => simp [hk, count]
  case pos =>
    subst hk
    by_cases ht : t' = t
    case pos =>
      subst ht
      rw [← hn]
      simp [count]
    case neg =>
      have ht' : t ≠ t' := fun he => ht he.symm
      rw [ho t' ht]
      simp [count, ht, ht']

variable (t' k') in
theorem count_release (h : locks.release t k = some locks') :
    locks.count t' k' = locks'.count t' k' + if t' = t ∧ k' = k then 1 else 0 := by
  rw [release] at h
  cases hl : locks k with
  | none   => simp [hl] at h
  | some p =>
    obtain ⟨o, n⟩ := p
    simp only [hl, Option.ite_none_right_eq_some, Option.some.injEq] at h
    obtain ⟨rfl, rfl⟩ := h
    by_cases hk : k' = k
    case neg => simp [hk, count]
    case pos =>
      subst hk
      cases n with
      | zero   => simp [count, hl, eq_comm]
      | succ n =>
        by_cases ht : t' = o
        case pos => simp [count, hl, ht]
        case neg => simp [count, hl, ht, eq_comm]

-- The owner can release its lock.
theorem release_isSome (h : 0 < locks.count t k) : (locks.release t k).isSome := by
  rw [count] at h
  rw [release]
  cases hl : locks k with
  | none   => simp [hl] at h
  | some p =>
    obtain ⟨o, n⟩ := p
    by_cases ho : o = t
    case pos => simp [ho]
    case neg => simp [hl, ho] at h

theorem acquire_eq_none_iff : locks.acquire t k = none ↔ ∃ o, o ≠ t ∧ 0 < locks.count o k := by
  rw [acquire]
  cases hl : locks k with
  | none   => simp [count, hl]
  | some p =>
    obtain ⟨o, n⟩ := p
    by_cases ho : o = t
    case pos =>
      subst ho
      simp [count, hl]
      exact fun o' h he => h he.symm
    case neg =>
      simp only [ho, if_false, true_iff]
      exact ⟨o, ho, by simp [count, hl]⟩

end Locks
