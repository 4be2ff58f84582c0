import Mathlib.Data.List.Induction
import BridleModel.Library.Assoc

-- Dictionaries that count, as `defaultdict(int)` with `counts[key] += 1` does.
namespace Tally

variable {κ : Type*} [DecidableEq κ] {counts : List (κ × Nat)} {keys : List κ} {key : κ} {n : Nat}

def bump (counts : List (κ × Nat)) (key : κ) : List (κ × Nat) :=
  Assoc.set counts key ((Assoc.get counts key).getD 0 + 1)

def tally (keys : List κ) : List (κ × Nat) :=
  keys.foldl bump []

-- `counts[key]`
def count (counts : List (κ × Nat)) (key : κ) : Nat :=
  (Assoc.get counts key).getD 0

theorem tally_concat : tally (keys ++ [key]) = bump (tally keys) key := by
  rw [tally, List.foldl_concat]
  rfl

theorem get_tally : Assoc.get (tally keys) key = if key ∈ keys then some (keys.count key) else none := by
  induction keys using List.reverseRecOn with
  | nil                        => rfl
  | append_singleton keys k hi =>
    rw [tally_concat, bump, Assoc.get_set]
    by_cases hk : key = k
    case pos =>
      subst hk
      rw [if_pos rfl, hi, if_pos (List.mem_append_right _ List.mem_cons_self), List.count_append]
      by_cases hm : key ∈ keys
      case pos => simp [hm]
      case neg => simp [hm, List.count_eq_zero_of_not_mem hm]
    case neg =>
      rw [if_neg hk, hi, List.count_append]
      simp [hk, Ne.symm hk]

theorem count_tally : count (tally keys) key = keys.count key := by
  rw [count, get_tally]
  split
  case isTrue     => rfl
  case isFalse hk => exact (List.count_eq_zero_of_not_mem hk).symm

theorem nodup_tally : ((tally keys).map (·.fst)).Nodup := by
  induction keys using List.reverseRecOn with
  | nil                        => exact .nil
  | append_singleton keys k hi =>
    rw [tally_concat]
    exact Assoc.nodup_set hi

theorem count_pos : 0 < count (tally keys) key ↔ key ∈ keys := by
  rw [count_tally, List.count_pos_iff]

theorem mem_tally : (key, n) ∈ tally keys ↔ key ∈ keys ∧ count (tally keys) key = n := by
  rw [← Assoc.get_eq_some_iff nodup_tally, get_tally, count_tally]
  split
  case isTrue hk  => simp [hk]
  case isFalse hk => simp [hk]

-- What every element brings at most once is counted as often as there are elements that bring it.
theorem count_flatMap {α : Type*} {f : α → List κ} {l : List α} {p : α → Prop} [DecidablePred p]
    (distinct : ∀ a ∈ l, (f a).Nodup) (h : ∀ a ∈ l, key ∈ f a ↔ p a) :
    count (tally (l.flatMap f)) key = l.countP (p ·) := by
  rw [count_tally]
  induction l with
  | nil         => rfl
  | cons a l hi =>
    have ⟨hd, hds⟩ := List.forall_mem_cons.mp distinct
    have ⟨ha, hl⟩ := List.forall_mem_cons.mp h
    rw [List.flatMap_cons, List.count_append, hi hds hl, List.countP_cons, Nat.add_comm]
    congr 1
    by_cases hp : p a
    case pos => simp [hp, List.count_eq_one_of_mem hd (ha.mpr hp)]
    case neg => simp [hp, List.count_eq_zero_of_not_mem (hp ∘ ha.mp)]

end Tally
