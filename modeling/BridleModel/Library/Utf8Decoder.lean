import BridleModel.Library.Utf8

namespace Utf8

-- Where a decoder stands between two octets. In a character that has begun, `owed` octets are still to come, the next
-- of them from `low` to `high`, and the octets before carry `value`.
inductive Decoder
  | start
  | tail (owed low high value : Nat)

namespace Decoder

-- The octet at which no character has begun, with what it completes: a character, or octets that are none (`none`).
def first (b : Nat) : List (Option Char) × Decoder :=
  if b < 0x80 then
    ([some (Char.ofNat b)], .start)
  else if 0xc2 ≤ b ∧ b ≤ 0xdf then
    ([], .tail 1 0x80 0xbf (b - 0xc0))
  else if 0xe0 ≤ b ∧ b ≤ 0xef then
    ([], .tail 2 (if b = 0xe0 then 0xa0 else 0x80) (if b = 0xed then 0x9f else 0xbf) (b - 0xe0))
  else if 0xf0 ≤ b ∧ b ≤ 0xf4 then
    ([], .tail 3 (if b = 0xf0 then 0x90 else 0x80) (if b = 0xf4 then 0x8f else 0xbf) (b - 0xf0))
  else
    ([none], .start)

-- An octet that the character cannot have is read again as a first one.
def step : Decoder → Nat → List (Option Char) × Decoder
  | .start, b                    => first b
  | .tail owed low high value, b =>
    if ¬(low ≤ b ∧ b ≤ high) then
      (none :: (first b).fst, (first b).snd)
    else if owed = 1 then
      ([some (Char.ofNat (value * 64 + (b - 0x80)))], .start)
    else
      ([], .tail (owed - 1) 0x80 0xbf (value * 64 + (b - 0x80)))

def run : Decoder → List Nat → List (Option Char)
  | .start, []     => []
  | .tail .., []   => [none]
  | d, b :: bytes  => (d.step b).fst ++ run (d.step b).snd bytes

end Decoder

-- The characters of the bytes, with `none` for every longest run of octets that begins a character and is none.
def scan (bytes : List UInt8) : List (Option Char) :=
  Decoder.start.run (bytes.map UInt8.toNat)

-- `bytes.decode("utf-8")`, with `none` for `UnicodeDecodeError`
def decode (bytes : List UInt8) : Option (List Char) :=
  (scan bytes).mapM id

-- `bytes.decode("utf-8", errors="replace")`
def decodeReplace (bytes : List UInt8) : List Char :=
  (scan bytes).map (·.getD '\ufffd')

section Scan

open Decoder

variable {b owed low high value : Nat} {bytes rest : List Nat}

theorem run_tail_last (h : low ≤ b ∧ b ≤ high) :
    run (.tail 1 low high value) (b :: rest) = some (Char.ofNat (value * 64 + (b - 0x80))) :: run .start rest := by
  simp [run, step, h]

theorem run_tail_next (h : low ≤ b ∧ b ≤ high) :
    run (.tail (owed + 2) low high value) (b :: rest) =
      run (.tail (owed + 1) 0x80 0xbf (value * 64 + (b - 0x80))) rest := by
  simp [run, step, h]

theorem run_octets (h : Octets bytes) :
    run .start (bytes ++ rest) = some (Char.ofNat (codePoint bytes)) :: run .start rest := by
  cases h with
  | @two a b ha hb =>
    have hf : first a = ([], .tail 1 0x80 0xbf (a - 0xc0)) := by rw [first, if_neg (by omega), if_pos ha]
    rw [List.cons_append, run, step, hf]
    dsimp only
    rw [List.nil_append, List.cons_append, run_tail_last hb]
    rfl
  | @three a b c ha hb hc low surrogate =>
    have hb' : (if a = 0xe0 then 0xa0 else 0x80) ≤ b ∧ b ≤ (if a = 0xed then 0x9f else 0xbf) := by
      constructor <;> split <;> omega
    have hv : ((a - 0xe0) * 64 + (b - 0x80)) * 64 + (c - 0x80) = codePoint [a, b, c] := by
      change _ = (a - 0xe0) * 4096 + (b - 0x80) * 64 + (c - 0x80)
      omega
    rw [List.cons_append, run, step, first, if_neg (by omega), if_neg (by omega), if_pos ha]
    dsimp only
    rw [List.nil_append, List.cons_append, run_tail_next hb', List.cons_append, run_tail_last hc, hv]
    rfl
  | @four a b c d ha hb hc hd low high =>
    have hb' : (if a = 0xf0 then 0x90 else 0x80) ≤ b ∧ b ≤ (if a = 0xf4 then 0x8f else 0xbf) := by
      constructor <;> split <;> omega
    have hv : (((a - 0xf0) * 64 + (b - 0x80)) * 64 + (c - 0x80)) * 64 + (d - 0x80) = codePoint [a, b, c, d] := by
      change _ = (a - 0xf0) * 262144 + (b - 0x80) * 4096 + (c - 0x80) * 64 + (d - 0x80)
      omega
    rw [List.cons_append, run, step, first, if_neg (by omega), if_neg (by omega), if_neg (by omega), if_pos ha]
    dsimp only
    rw [List.nil_append, List.cons_append, run_tail_next hb', List.cons_append, run_tail_next hc, List.cons_append,
      run_tail_last hd, hv]
    rfl

theorem scan_encodeChar {c : Char} {rest : List UInt8} :
    scan (String.utf8EncodeChar c ++ rest) = some c :: scan rest := by
  rw [scan, List.map_append]
  cases encodeChar_cases c with
  | inl h =>
    obtain ⟨hc, he⟩ := h
    rw [he, List.map_singleton, toNat_ofNat (by omega), List.singleton_append, run, step, first, if_pos hc,
      Char.ofNat_toNat]
    rfl
  | inr h =>
    rw [run_octets h]
    have he := encodeChar_codePoint h
    rw [encodeChar_injective (List.map_injective_iff.mpr (fun _ _ => UInt8.toNat_inj.mp) he)]
    rfl

theorem scan_encode {text : List Char} : scan (text.flatMap String.utf8EncodeChar) = text.map some := by
  induction text
  case nil          => rfl
  case cons c cs hi => rw [List.flatMap_cons, scan_encodeChar, hi, List.map_cons]

theorem tail_of_not_mem (h : none ∉ run (.tail owed low high value) bytes) :
    ∃ b rest, bytes = b :: rest ∧ (low ≤ b ∧ b ≤ high) ∧
      (owed ≠ 1 → none ∉ run (.tail (owed - 1) 0x80 0xbf (value * 64 + (b - 0x80))) rest) := by
  cases bytes with
  | nil          => exact absurd (List.mem_singleton_self none) h
  | cons b bytes =>
    rw [run, step] at h
    by_cases hb : low ≤ b ∧ b ≤ high
    case pos =>
      rw [if_neg (not_not_intro hb)] at h
      refine ⟨b, bytes, rfl, hb, fun ho => ?_⟩
      rw [if_neg ho] at h
      exact h
    case neg =>
      rw [if_pos hb] at h
      exact absurd (List.mem_append_left _ List.mem_cons_self) h

-- Where nothing is refused, the bytes begin with the octets of a character.
theorem start_of_not_mem (h : none ∉ run .start (b :: bytes)) :
    b < 0x80 ∨ ∃ octets rest, b :: bytes = octets ++ rest ∧ Octets octets := by
  rw [run, step, first] at h
  by_cases h₁ : b < 0x80
  case pos => exact .inl h₁
  case neg =>
    refine .inr ?_
    rw [if_neg h₁] at h
    by_cases h₂ : 0xc2 ≤ b ∧ b ≤ 0xdf
    case pos =>
      rw [if_pos h₂] at h
      obtain ⟨c, rest, rfl, hc, _⟩ := tail_of_not_mem h
      exact ⟨[b, c], rest, rfl, .two h₂ hc⟩
    case neg =>
      rw [if_neg h₂] at h
      by_cases h₃ : 0xe0 ≤ b ∧ b ≤ 0xef
      case pos =>
        rw [if_pos h₃] at h
        obtain ⟨c, rest, rfl, hc, h⟩ := tail_of_not_mem h
        obtain ⟨d, rest, rfl, hd, _⟩ := tail_of_not_mem (h (by decide))
        exact ⟨[b, c, d], rest, rfl, .three h₃ (by grind) hd (by grind) (by grind)⟩
      case neg =>
        rw [if_neg h₃] at h
        by_cases h₄ : 0xf0 ≤ b ∧ b ≤ 0xf4
        case pos =>
          rw [if_pos h₄] at h
          obtain ⟨c, rest, rfl, hc, h⟩ := tail_of_not_mem h
          obtain ⟨d, rest, rfl, hd, h⟩ := tail_of_not_mem (h (by decide))
          obtain ⟨e, rest, rfl, he, _⟩ := tail_of_not_mem (h (by decide))
          exact ⟨[b, c, d, e], rest, rfl, .four h₄ (by grind) hd he (by grind) (by grind)⟩
        case neg =>
          rw [if_neg h₄] at h
          exact absurd List.mem_cons_self h

theorem encodeChar_ofNat {b : UInt8} (h : b.toNat < 0x80) : String.utf8EncodeChar (Char.ofNat b.toNat) = [b] := by
  unfold String.utf8EncodeChar
  rw [toNat_val_ofNat (.inl (by omega))]
  dsimp only
  rw [if_pos (by omega), UInt8.ofNat_toNat]

theorem exists_encodeChar {b : UInt8} {bytes : List UInt8} (h : none ∉ scan (b :: bytes)) :
    ∃ c rest, b :: bytes = String.utf8EncodeChar c ++ rest := by
  cases start_of_not_mem h with
  | inl h => exact ⟨_, bytes, by rw [encodeChar_ofNat h]; rfl⟩
  | inr h =>
    obtain ⟨octets, rest, he, ho⟩ := h
    have hm : (b :: bytes).map UInt8.toNat = octets ++ rest := he
    obtain ⟨head, tail, hb, rfl, rfl⟩ := List.map_eq_append_iff.mp hm
    obtain ⟨c, hc⟩ := encodeChar_of_octets ho
    refine ⟨c, tail, ?_⟩
    rw [hb, List.map_injective_iff.mpr (fun _ _ => UInt8.toNat_inj.mp) hc]

theorem scan_eq_iff {bytes : List UInt8} {text : List Char} :
    scan bytes = text.map some ↔ bytes = text.flatMap String.utf8EncodeChar := by
  refine ⟨fun h => ?_, fun h => h ▸ scan_encode⟩
  have hn : none ∉ scan bytes := h ▸ by simp
  induction text generalizing bytes
  case nil             =>
    cases bytes with
    | nil          => rfl
    | cons b bytes =>
      obtain ⟨c, rest, he⟩ := exists_encodeChar hn
      rw [he, scan_encodeChar] at h
      cases h
  case cons d text hi  =>
    cases bytes with
    | nil          => cases h
    | cons b bytes =>
      obtain ⟨c, rest, he⟩ := exists_encodeChar hn
      rw [he, scan_encodeChar] at h hn
      obtain ⟨hc, ht⟩ := List.cons.inj h
      cases hc
      rw [he, List.flatMap_cons, hi ht fun hm => hn (List.mem_cons_of_mem _ hm)]

theorem mapM_id_eq_some {α : Type} {xs : List (Option α)} {ys : List α} : xs.mapM id = some ys ↔ xs = ys.map some := by
  induction xs generalizing ys
  case nil          => cases ys <;> simp
  case cons x xs hi =>
    cases x with
    | none   => cases ys <;> simp [List.mapM_cons]
    | some x =>
      cases ys with
      | nil       => simp [List.mapM_cons, Option.bind_eq_some_iff]
      | cons y ys =>
        simp only [List.mapM_cons, id_eq, Option.bind_eq_bind, Option.bind_some, Option.bind_eq_some_iff, List.map_cons,
          List.cons.injEq, ← hi, Option.pure_def, Option.some.injEq]
        exact ⟨fun ⟨_, h, hx, hs⟩ => ⟨hx, hs ▸ h⟩, fun ⟨hx, h⟩ => ⟨ys, h, hx, rfl⟩⟩

end Scan

-- The strict decoder is the inverse of the encoder.
theorem decode_eq_some_iff {bytes : List UInt8} {text : List Char} :
    decode bytes = some text ↔ bytes = text.flatMap String.utf8EncodeChar :=
  mapM_id_eq_some.trans scan_eq_iff

end Utf8
