import Mathlib.Data.List.Forall2
import Mathlib.Tactic.Ring
import Mathlib.Tactic.Tauto

-- Records of numbers as text, each number with a fixed count of decimal digits and followed by a fixed
-- character. Reading such a text gives the numbers back, and texts compare as the numbers do.
namespace FixedWidth

def digit (n : Nat) : Char :=
  Char.ofNat ('0'.toNat + n)

def digitValue (c : Char) : Option Nat :=
  if '0' ≤ c ∧ c ≤ '9' then some (c.toNat - '0'.toNat) else none

theorem digitValue_digit {n : Nat} (h : n < 10) : digitValue (digit n) = some n := by
  decide +revert

theorem digit_lt_iff {n m : Nat} (hn : n < 10) (hm : m < 10) : digit n < digit m ↔ n < m := by
  revert m
  decide +revert

theorem digit_eq_iff {n m : Nat} (hn : n < 10) (hm : m < 10) : digit n = digit m ↔ n = m := by
  revert m
  decide +revert

def pad : Nat → Nat → List Char
  | 0, _     => []
  | w + 1, n => digit (n / 10 ^ w) :: pad w (n % 10 ^ w)

-- The digits of `cs` behind the number `acc`.
def number (acc : Nat) : List Char → Option Nat
  | []      => some acc
  | c :: cs => (digitValue c).bind fun d => number (10 * acc + d) cs

section Pad

variable {w n m : Nat}

theorem length_pad : (pad w n).length = w := by
  induction w generalizing n
  case zero    => rfl
  case succ hi => simp [pad, hi]

theorem div_lt_ten (h : n < 10 ^ (w + 1)) : n / 10 ^ w < 10 :=
  Nat.div_lt_of_lt_mul (by rwa [← Nat.pow_succ])

theorem mod_lt_pow : n % 10 ^ w < 10 ^ w :=
  Nat.mod_lt _ (Nat.pow_pos (by decide))

theorem number_pad {acc : Nat} (h : n < 10 ^ w) : number acc (pad w n) = some (acc * 10 ^ w + n) := by
  induction w generalizing acc n
  case zero => simp_all [pad, number]
  case succ w hi =>
    rw [pad, number, digitValue_digit (div_lt_ten h), Option.bind_some, hi mod_lt_pow]
    have hn := Nat.div_add_mod n (10 ^ w)
    congr 1
    calc (10 * acc + n / 10 ^ w) * 10 ^ w + n % 10 ^ w
        = acc * 10 ^ (w + 1) + (10 ^ w * (n / 10 ^ w) + n % 10 ^ w) := by ring
      _ = acc * 10 ^ (w + 1) + n := by rw [hn]

-- Numbers compare by their leading digit and then by the rest.
theorem lt_iff_div_mod {p : Nat} :
    n < m ↔ n / p < m / p ∨ n / p = m / p ∧ n % p < m % p := by
  have hn := Nat.div_add_mod n p
  have hm := Nat.div_add_mod m p
  constructor
  · intro h
    cases (Nat.div_le_div_right (Nat.le_of_lt h) : n / p ≤ m / p).lt_or_eq with
    | inl hlt => exact .inl hlt
    | inr heq =>
      rw [heq] at hn
      exact .inr ⟨heq, by omega⟩
  · intro h
    cases h with
    | inl h => exact Nat.lt_of_div_lt_div h
    | inr h =>
      rw [h.1] at hn
      omega

theorem eq_iff_div_mod {p : Nat} : n = m ↔ n / p = m / p ∧ n % p = m % p := by
  constructor
  · rintro rfl
    exact ⟨rfl, rfl⟩
  · intro ⟨hd, hr⟩
    rw [← Nat.div_add_mod n p, ← Nat.div_add_mod m p, hd, hr]

theorem pad_append_lt_iff {xs ys : List Char} (hn : n < 10 ^ w) (hm : m < 10 ^ w) :
    pad w n ++ xs < pad w m ++ ys ↔ n < m ∨ n = m ∧ xs < ys := by
  induction w generalizing n m
  case zero => simp_all [pad]
  case succ w hi =>
    have hdn := div_lt_ten hn
    have hdm := div_lt_ten hm
    simp only [pad, List.cons_append, List.cons_lt_cons_iff, digit_lt_iff hdn hdm,
      digit_eq_iff hdn hdm, hi mod_lt_pow mod_lt_pow]
    rw [lt_iff_div_mod (n := n) (m := m) (p := 10 ^ w),
      eq_iff_div_mod (n := n) (m := m) (p := 10 ^ w)]
    tauto

end Pad

-- The width of each number and the character behind it.
abbrev Format :=
  List (Nat × Char)

def Fits : Format → List Nat → Prop :=
  List.Forall₂ fun field n => n < 10 ^ field.fst

def render : Format → List Nat → List Char
  | (w, c) :: fs, n :: ns => pad w n ++ c :: render fs ns
  | _, _                  => []

def parse : Format → List Char → Option (List Nat)
  | [], []           => some []
  | [], _ :: _       => none
  | (w, c) :: fs, cs =>
    match cs.drop w with
    | []         => none
    | c' :: rest => if c' = c then (number 0 (cs.take w)).bind fun n => (parse fs rest).map (n :: ·)
                    else none

section Format

variable {fs : Format} {ns ms : List Nat}

theorem parse_render (h : Fits fs ns) : parse fs (render fs ns) = some ns := by
  induction h
  case nil => rfl
  case cons f n fs ns hn _ hi =>
    have hd (xs : List Char) : (pad f.1 n ++ xs).drop f.1 = xs := by
      rw [List.drop_left' length_pad]
    have ht (xs : List Char) : (pad f.1 n ++ xs).take f.1 = pad f.1 n := by
      rw [List.take_left' length_pad]
    simp [render, parse, hd, ht, number_pad hn, hi]

theorem render_lt_iff (hn : Fits fs ns) (hm : Fits fs ms) : render fs ns < render fs ms ↔ ns < ms := by
  induction hn generalizing ms
  case nil => cases hm; simp [render]
  case cons f n fs ns hn _ hi =>
    cases hm
    case cons m ms hm hms =>
      simp only [render, pad_append_lt_iff hn hm, List.cons_lt_cons_iff, Char.lt_irrefl, false_or,
        true_and, hi hms]

end Format
end FixedWidth
