import Mathlib.Data.String.Basic

namespace Utf8

-- The octets of one character that is not ASCII
inductive Octets : List Nat → Prop
  | two {a b : Nat} (ha : 0xc2 ≤ a ∧ a ≤ 0xdf) (hb : 0x80 ≤ b ∧ b ≤ 0xbf) : Octets [a, b]
  | three {a b c : Nat} (ha : 0xe0 ≤ a ∧ a ≤ 0xef) (hb : 0x80 ≤ b ∧ b ≤ 0xbf) (hc : 0x80 ≤ c ∧ c ≤ 0xbf)
      (low : a = 0xe0 → 0xa0 ≤ b) (surrogate : a = 0xed → b ≤ 0x9f) : Octets [a, b, c]
  | four {a b c d : Nat} (ha : 0xf0 ≤ a ∧ a ≤ 0xf4) (hb : 0x80 ≤ b ∧ b ≤ 0xbf)
      (hc : 0x80 ≤ c ∧ c ≤ 0xbf) (hd : 0x80 ≤ d ∧ d ≤ 0xbf) (low : a = 0xf0 → 0x90 ≤ b)
      (high : a = 0xf4 → b ≤ 0x8f) : Octets [a, b, c, d]

theorem toNat_cases (c : Char) : c.toNat < 0xd800 ∨ (0xdfff < c.toNat ∧ c.toNat < 0x110000) :=
  c.valid

theorem toNat_ofNat {n : Nat} (h : n < 256) : (UInt8.ofNat n).toNat = n := by
  simp [Nat.mod_eq_of_lt h]

theorem encodeChar_cases (c : Char) :
    (c.toNat < 0x80 ∧ String.utf8EncodeChar c = [UInt8.ofNat c.toNat]) ∨
      Octets ((String.utf8EncodeChar c).map UInt8.toNat) := by
  have hv := toNat_cases c
  unfold Char.toNat at *
  unfold String.utf8EncodeChar
  dsimp only
  generalize c.val.toNat = v at *
  split
  case isTrue h => exact .inl ⟨by omega, rfl⟩
  case isFalse h₁ =>
    refine .inr ?_
    split
    case isTrue h₂ =>
      simp only [List.map_cons, List.map_nil]
      rw [toNat_ofNat (by omega), toNat_ofNat (by omega)]
      exact .two (by omega) (by omega)
    case isFalse h₂ =>
      split
      case isTrue h₃ =>
        simp only [List.map_cons, List.map_nil]
        rw [toNat_ofNat (by omega), toNat_ofNat (by omega), toNat_ofNat (by omega)]
        exact .three (by omega) (by omega) (by omega) (by omega) (by omega)
      case isFalse h₃ =>
        simp only [List.map_cons, List.map_nil]
        rw [toNat_ofNat (by omega), toNat_ofNat (by omega), toNat_ofNat (by omega),
          toNat_ofNat (by omega)]
        exact .four (by omega) (by omega) (by omega) (by omega) (by omega) (by omega)

theorem toNat_val_ofNat {n : Nat} (h : n.isValidChar) : (Char.ofNat n).val.toNat = n := by
  rw [Char.ofNat, dif_pos h]
  rfl

-- The number of the character that such a sequence of octets encodes
def codePoint : List Nat → Nat
  | [a, b]       => (a - 0xc0) * 64 + (b - 0x80)
  | [a, b, c]    => (a - 0xe0) * 4096 + (b - 0x80) * 64 + (c - 0x80)
  | [a, b, c, d] => (a - 0xf0) * 262144 + (b - 0x80) * 4096 + (c - 0x80) * 64 + (d - 0x80)
  | _            => 0

theorem encodeChar_codePoint {bytes : List Nat} (h : Octets bytes) :
    (String.utf8EncodeChar (Char.ofNat (codePoint bytes))).map UInt8.toNat = bytes := by
  cases h with
  | @two a b ha hb =>
    rw [show codePoint [a, b] = (a - 0xc0) * 64 + (b - 0x80) from rfl]
    unfold String.utf8EncodeChar
    rw [toNat_val_ofNat (.inl (by omega))]
    dsimp only
    rw [if_neg (by omega), if_pos (by omega), List.map_cons, List.map_singleton, toNat_ofNat (by omega),
      toNat_ofNat (by omega)]
    congr
    · omega
    · omega
  | @three a b c ha hb hc low surrogate =>
    rw [show codePoint [a, b, c] = (a - 0xe0) * 4096 + (b - 0x80) * 64 + (c - 0x80) from rfl]
    unfold String.utf8EncodeChar
    rw [toNat_val_ofNat (by unfold Nat.isValidChar; omega)]
    dsimp only
    rw [if_neg (by omega), if_neg (by omega), if_pos (by omega), List.map_cons, List.map_cons, List.map_singleton,
      toNat_ofNat (by omega), toNat_ofNat (by omega), toNat_ofNat (by omega)]
    congr
    · omega
    · omega
    · omega
  | @four a b c d ha hb hc hd low high =>
    rw [show codePoint [a, b, c, d] = (a - 0xf0) * 262144 + (b - 0x80) * 4096 + (c - 0x80) * 64 + (d - 0x80) from rfl]
    unfold String.utf8EncodeChar
    rw [toNat_val_ofNat (by unfold Nat.isValidChar; omega)]
    dsimp only
    rw [if_neg (by omega), if_neg (by omega), if_neg (by omega), List.map_cons, List.map_cons, List.map_cons,
      List.map_singleton, toNat_ofNat (by omega), toNat_ofNat (by omega), toNat_ofNat (by omega),
      toNat_ofNat (by omega)]
    congr
    · omega
    · omega
    · omega
    · omega

-- Each such sequence of octets is the encoding of a character.
theorem encodeChar_of_octets {bytes : List Nat} (h : Octets bytes) :
    ∃ c, (String.utf8EncodeChar c).map UInt8.toNat = bytes :=
  ⟨_, encodeChar_codePoint h⟩

theorem encodeChar_injective {c c' : Char} (h : String.utf8EncodeChar c = String.utf8EncodeChar c') : c = c' := by
  have he : [c].utf8Encode = [c'].utf8Encode := by simp [List.utf8Encode, h]
  exact List.head_eq_of_cons_eq (String.ofList_injective (String.toByteArray_inj.mp he))

theorem Octets.le {bytes : List Nat} (h : Octets bytes) : ∀ n ∈ bytes, 0x80 ≤ n := by
  cases h with
  | two          => simp; omega
  | three        => simp; omega
  | four         => simp; omega

theorem toList_loop {bytes : ByteArray} {i : Nat} {r : List UInt8} :
    ByteArray.toList.loop bytes i r = r.reverse ++ bytes.data.toList.drop i := by
  fun_induction ByteArray.toList.loop bytes i r with
  | case1 i r h hi =>
    rw [hi, List.reverse_cons, List.append_assoc]
    congr 1
    rw [List.drop_eq_getElem_cons (i := i) (by simpa using h)]
    simp [ByteArray.get!, h]
  | case2 i r h    =>
    have hl : bytes.data.toList.length ≤ i := by simpa using h
    rw [List.drop_eq_nil_of_le hl, List.append_nil]

theorem toList_toUTF8 {s : String} : s.toUTF8.toList = s.toList.flatMap String.utf8EncodeChar := by
  have h : s.toUTF8 = s.toList.utf8Encode := String.utf8Encode_toList.symm
  rw [h, List.utf8Encode, ByteArray.toList, toList_loop]
  simp

theorem fromUTF8?_toList {s : String} : String.fromUTF8? s.toUTF8.toList.toByteArray = some s := by
  have h : s.toUTF8.toList.toByteArray = s.toUTF8 := by
    rw [toList_toUTF8]
    exact String.utf8Encode_toList
  rw [h, String.fromUTF8?]
  simp [String.fromUTF8, s.isValidUTF8]

end Utf8
