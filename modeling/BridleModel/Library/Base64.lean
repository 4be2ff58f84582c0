import Mathlib.Data.List.Basic

-- The URL-safe alphabet, with padding.
namespace Base64

def digit (n : Nat) : Char :=
  if n < 26 then Char.ofNat ('A'.toNat + n)
  else if n < 52 then Char.ofNat ('a'.toNat + (n - 26))
  else if n < 62 then Char.ofNat ('0'.toNat + (n - 52))
  else if n = 62 then '-'
  else '_'

def value (c : Char) : Option Nat :=
  (List.range 64).find? (digit · = c)

def encode : List Nat → List Char
  | []               => []
  | [a]              => [digit (a / 4), digit (a % 4 * 16), '=', '=']
  | [a, b]           => [digit (a / 4), digit (a % 4 * 16 + b / 16), digit (b % 16 * 4), '=']
  | a :: b :: c :: s =>
    digit (a / 4) :: digit (a % 4 * 16 + b / 16) :: digit (b % 16 * 4 + c / 64) :: digit (c % 64) :: encode s

-- `none` is a text that `encode` does not write.
def decode : List Char → Option (List Nat)
  | []                     => some []
  | w :: x :: y :: z :: cs =>
    match value w, value x, value y, value z, decode cs with
    | some i, some j, some k, some l, some s =>
      some ((i * 4 + j / 16) :: (j % 16 * 16 + k / 4) :: (k % 4 * 64 + l) :: s)
    | some i, some j, some k, none, some []  =>
      if z = '=' then some [i * 4 + j / 16, j % 16 * 16 + k / 4] else none
    | some i, some j, none, none, some []    =>
      if y = '=' ∧ z = '=' then some [i * 4 + j / 16] else none
    | _, _, _, _, _                          => none
  | _                      => none

theorem value_digit : ∀ n < 64, value (digit n) = some n := by
  decide +kernel

theorem value_pad : value '=' = none := by
  decide +kernel

theorem decode_encode {bytes : List Nat} (h : ∀ n ∈ bytes, n < 256) :
    decode (encode bytes) = some bytes := by
  fun_induction encode bytes with
  | case1          => rfl
  | case2 a        =>
    have ha := h a (by simp)
    simp only [decode, value_digit _ (show a / 4 < 64 by omega),
      value_digit _ (show a % 4 * 16 < 64 by omega), value_pad, and_self, if_true, Option.some.injEq,
      List.cons.injEq, and_true]
    omega
  | case3 a b      =>
    have ha := h a (by simp)
    have hb := h b (by simp)
    simp only [decode, value_digit _ (show a / 4 < 64 by omega),
      value_digit _ (show a % 4 * 16 + b / 16 < 64 by omega),
      value_digit _ (show b % 16 * 4 < 64 by omega), value_pad, if_true, Option.some.injEq,
      List.cons.injEq, and_true]
    omega
  | case4 a b c s hi =>
    have ha := h a (by simp)
    have hb := h b (by simp)
    have hc := h c (by simp)
    have hs := hi fun n hn => h n (by simp [hn])
    simp only [decode, value_digit _ (show a / 4 < 64 by omega),
      value_digit _ (show a % 4 * 16 + b / 16 < 64 by omega),
      value_digit _ (show b % 16 * 4 + c / 64 < 64 by omega), value_digit _ (show c % 64 < 64 by omega),
      hs, Option.some.injEq, List.cons.injEq, and_true]
    omega

theorem encode_ne_nil {bytes : List Nat} (h : bytes ≠ []) : encode bytes ≠ [] := by
  fun_cases encode bytes <;> simp_all

end Base64
