import Mathlib.Data.Int.Log
import Mathlib.Data.Rat.Floor
import Mathlib.Tactic.FieldSimp
import Mathlib.Tactic.NormNum
import Mathlib.Tactic.Ring

-- The finite numbers of the format binary64 that are not negative, as rationals, with the rounding of exact results.
namespace Binary64

section Rounding

-- The nearest integer, and of two the even one
def roundEven (q : ℚ) : ℤ :=
  if q - ⌊q⌋ < 1 / 2 ∨ (q - ⌊q⌋ = 1 / 2 ∧ ⌊q⌋ % 2 = 0) then ⌊q⌋ else ⌊q⌋ + 1

-- The exponent of the last place of a number of this size
def lastPlace (q : ℚ) : ℤ :=
  max (Int.log 2 q - 52) (-1074)

def round (q : ℚ) : ℚ :=
  roundEven (q / 2 ^ lastPlace q) * 2 ^ lastPlace q

-- The result of an operation whose exact result is `q`; `none` is the infinity.
def result (q : ℚ) : Option ℚ :=
  if round q < 2 ^ 1024 then some (round q) else none

end Rounding

variable {m k : ℕ} {e : ℤ} {q : ℚ}

theorem roundEven_intCast {n : ℤ} : roundEven n = n := by
  rw [roundEven, Int.floor_intCast, if_pos (.inl (by norm_num))]

-- The numbers that need no more than 53 binary digits
def Exact (q : ℚ) : Prop :=
  ∃ (m : ℕ) (e : ℤ), m < 2 ^ 53 ∧ -1074 ≤ e ∧ q = m * 2 ^ e

theorem two_zpow_pos : (0 : ℚ) < 2 ^ e :=
  zpow_pos (by norm_num) e

theorem lastPlace_le (hm : m < 2 ^ 53) (he : -1074 ≤ e) (h0 : m ≠ 0) : lastPlace (m * 2 ^ e) ≤ e := by
  have hm' : (m : ℚ) < 2 ^ (53 : ℤ) := by exact_mod_cast hm
  have hpos : (0 : ℚ) < m * 2 ^ e := mul_pos (by exact_mod_cast Nat.pos_of_ne_zero h0) two_zpow_pos
  have hlt : (m : ℚ) * 2 ^ e < ((2 : ℕ) : ℚ) ^ (53 + e) := by
    rw [Nat.cast_ofNat, zpow_add₀ (by norm_num)]
    exact mul_lt_mul_of_pos_right hm' two_zpow_pos
  have hlog := (Int.lt_zpow_iff_log_lt (by norm_num) hpos).mp hlt
  rw [lastPlace]
  omega

-- Such a number is a whole number of its last places.
theorem Exact.round (h : Exact q) : round q = q := by
  obtain ⟨m, e, hm, he, rfl⟩ := h
  by_cases h0 : m = 0
  case pos => simp [Binary64.round, h0, roundEven]
  case neg =>
    have hle := lastPlace_le hm he h0
    rw [Binary64.round]
    generalize lastPlace (m * 2 ^ e) = p at hle
    have hd : (m : ℚ) * 2 ^ e / 2 ^ p = ((m * 2 ^ (e - p).toNat : ℤ) : ℚ) := by
      rw [Int.cast_mul, Int.cast_pow, Int.cast_natCast, Int.cast_ofNat, mul_div_assoc, ← zpow_sub₀ (by norm_num),
        ← zpow_natCast, Int.toNat_of_nonneg (by omega)]
    rw [hd, roundEven_intCast, ← hd, div_mul_cancel₀ _ (ne_of_gt two_zpow_pos)]

theorem Exact.mul_two_pow (h : Exact q) : Exact (q * 2 ^ k) := by
  obtain ⟨m, e, hm, he, rfl⟩ := h
  refine ⟨m, e + k, hm, by omega, ?_⟩
  rw [mul_assoc, zpow_add₀ (by norm_num), zpow_natCast]

theorem exact_two_pow : Exact (2 ^ k) := by
  refine ⟨1, k, by norm_num, by omega, ?_⟩
  rw [Nat.cast_one, one_mul, zpow_natCast]

theorem Exact.result (h : Exact q) : result q = if q < 2 ^ 1024 then some q else none := by
  rw [Binary64.result, h.round]

theorem result_two_pow : result (2 ^ k) = if k < 1024 then some (2 ^ k) else none := by
  rw [exact_two_pow.result]
  simp only [pow_lt_pow_iff_right₀ (show (1 : ℚ) < 2 by norm_num)]

end Binary64

-- A finite number of the format that is not negative
structure Binary64 where
  value  : ℚ
  exact  : Binary64.Exact value
  finite : value < 2 ^ 1024

namespace Binary64

variable {x y : Binary64} {k : ℕ}

-- The float times an integer, which is converted first: `none` for the `OverflowError`, and within it the infinity.
def mulInt (x : Binary64) (n : ℕ) : Option (Option ℚ) :=
  (result n).map fun n => result (x.value * n)

-- `min` of what may be the infinity and a float
def minFloat (product : Option ℚ) (y : Binary64) : ℚ :=
  match product with
  | none   => y.value
  | some q => min q y.value

theorem mulInt_two_pow : x.mulInt (2 ^ k) =
    if k < 1024 then some (if x.value * 2 ^ k < 2 ^ 1024 then some (x.value * 2 ^ k) else none) else none := by
  rw [mulInt, Nat.cast_pow, Nat.cast_ofNat, result_two_pow]
  split
  case isTrue  => rw [Option.map_some, x.exact.mul_two_pow.result]
  case isFalse => rfl

-- Scaled by a power of two and capped, a float is exact.
theorem minFloat_mulInt (h : k < 1024) : (x.mulInt (2 ^ k)).map (minFloat · y) = some (min (x.value * 2 ^ k) y.value) := by
  rw [mulInt_two_pow, if_pos h, Option.map_some]
  split
  case isTrue      => rfl
  case isFalse hge =>
    have hle : y.value ≤ x.value * 2 ^ k := (y.finite.trans_le (not_lt.mp hge)).le
    rw [minFloat, min_eq_right hle]

theorem mulInt_eq_none (h : 1024 ≤ k) : x.mulInt (2 ^ k) = none := by
  rw [mulInt_two_pow, if_neg (by omega)]

end Binary64
