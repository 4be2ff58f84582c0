import BridleModel.Library.Utf8
import BridleModel.Mailbox.Guard

open Python Sqlite

namespace Mail

section Timestamp

variable {t : DateTime} {w n : Nat}

theorem isDigit_digit (h : n < 10) : Sqlite.isDigit (FixedWidth.digit n) := by
  decide +revert

theorem isDigit_pad (h : n < 10 ^ w) : ∀ c ∈ FixedWidth.pad w n, Sqlite.isDigit c := by
  induction w generalizing n with
  | zero      => simp [FixedWidth.pad]
  | succ w hi =>
    intro c hc
    cases List.mem_cons.mp hc with
    | inl hc => exact hc ▸ isDigit_digit (FixedWidth.div_lt_ten h)
    | inr hc => exact hi FixedWidth.mod_lt_pow c hc

theorem digits_pad (h : n < 10 ^ w) :
    ¬glob [.star, .one fun c => ¬Sqlite.isDigit c, .star] (FixedWidth.pad w n) := by
  rw [glob_any]
  intro ⟨c, hc, hn⟩
  simp [isDigit_pad h c hc] at hn

theorem isDateTime_utcText : isDateTime t.utcText.toList := by
  have hp : FixedWidth.parse DateTime.format t.utcText.toList = some t.fields := by
    rw [DateTime.utcText, String.toList_ofList, FixedWidth.parse_render DateTime.fits]
  have hd : daysInMonth t.year t.month ≤ 31 := by
    unfold daysInMonth
    repeat' split
    all_goals decide
  have hv := t.valid
  unfold isDateTime
  rw [show ([(4, '-'), (2, '-'), (2, 'T'), (2, ':'), (2, ':'), (2, '.'), (6, 'Z')] : FixedWidth.Format) =
    DateTime.format from rfl, hp]
  simp only [DateTime.fields, decide_eq_true_eq]
  omega

theorem strictUtcGuard_utcText : strictUtcGuard t.utcText := by
  have hf := DateTime.fits (t := t)
  simp only [FixedWidth.Fits, DateTime.format, DateTime.fields, List.forall₂_cons] at hf
  have ⟨hy, hmo, hd, hh, hmi, hs, hus, _⟩ := hf
  have hl : t.utcText.toList = FixedWidth.render DateTime.format t.fields := by
    rw [DateTime.utcText, String.toList_ofList]
  unfold strictUtcGuard
  simp only [decide_eq_true_eq]
  refine ⟨?_, ?_, ?_, ?_, ?_, ?_, ?_, ?_, ?_, ?_, ?_, ?_, ?_, ?_, ?_, isDateTime_utcText⟩
  all_goals rw [hl]
  case refine_9  => exact digits_pad hy
  case refine_10 => exact digits_pad hmo
  case refine_11 => exact digits_pad hd
  case refine_12 => exact digits_pad hh
  case refine_13 => exact digits_pad hmi
  case refine_14 => exact digits_pad hs
  case refine_15 => exact digits_pad hus
  all_goals rfl

end Timestamp
section Octets

variable {a b c d m n lo hi k : Nat} {cs rest : List Char}

def hexPair (n : Nat) : List Char :=
  [hexDigit (n / 16), hexDigit (n % 16)]

theorem hexDigit_lt_iff (hn : n < 16) (hm : m < 16) : hexDigit n < hexDigit m ↔ n < m := by
  revert m
  decide +revert

theorem hexDigit_eq_iff (hn : n < 16) (hm : m < 16) : hexDigit n = hexDigit m ↔ n = m := by
  revert m
  decide +revert

theorem hexUpper_hexDigit (h : n < 16) : hexUpper (hexDigit n) := by
  decide +revert

theorem hexPair_lt_iff (hn : n < 256) (hm : m < 256) : hexPair n < hexPair m ↔ n < m := by
  rw [hexPair, hexPair, List.cons_lt_cons_iff, List.cons_lt_cons_iff,
    hexDigit_lt_iff (by omega) (by omega), hexDigit_eq_iff (by omega) (by omega),
    hexDigit_lt_iff (by omega) (by omega)]
  simp
  omega

theorem hexPair_le_iff (hn : n < 256) (hm : m < 256) : hexPair n ≤ hexPair m ↔ n ≤ m :=
  not_lt.symm.trans <| (not_congr (hexPair_lt_iff hm hn)).trans not_lt

theorem between_iff {x y : String} (hb : byte cs k = hexPair n) (hn : n < 256) (lo hi : Nat)
    (h : x.toList = hexPair lo ∧ y.toList = hexPair hi ∧ lo < 256 ∧ hi < 256) :
    between cs k x y ↔ lo ≤ n ∧ n ≤ hi := by
  have ⟨hx, hy, hlo, hhi⟩ := h
  rw [between, hb, hx, hy, decide_eq_true_eq, hexPair_le_iff hlo hn, hexPair_le_iff hn hhi]

theorem hexByte_of_eq (hs : sign cs k = ['%']) (hb : byte cs k = hexPair n) (hn : n < 256) :
    hexByte cs k := by
  simp [hexByte, hs, hb, hexPair, hexUpper_hexDigit (show n / 16 < 16 by omega),
    hexUpper_hexDigit (show n % 16 < 16 by omega)]

def escaped (bytes : List Nat) : List Char :=
  bytes.flatMap fun n => '%' :: hexPair n

theorem not_raw {bytes : List Nat} : ¬raw (escaped (n :: bytes) ++ rest) :=
  Bool.false_ne_true

theorem continuation_of_eq (hs : sign cs k = ['%']) (hb : byte cs k = hexPair n)
    (hn : 0x80 ≤ n ∧ n ≤ 0xbf) : continuation cs k := by
  rw [continuation, decide_eq_true_eq, between_iff hb (by omega) 0x80 0xbf (by decide)]
  exact ⟨hexByte_of_eq hs hb (by omega), hn⟩

-- The first octet of a longer sequence matches no shorter one.
theorem not_encodedAscii (hb : byte cs 0 = hexPair n) (hn : 0xc2 ≤ n ∧ n < 256) : ¬encodedAscii cs := by
  have h : ¬between cs 0 "00" "7F" := by
    rw [between_iff hb hn.right 0 0x7f (by decide)]
    omega
  simp [encodedAscii, h]

theorem not_encodedTwo (hb : byte cs 0 = hexPair n) (hn : 0xe0 ≤ n ∧ n < 256) : ¬encodedTwo cs := by
  have h : ¬between cs 0 "C2" "DF" := by
    rw [between_iff hb hn.right 0xc2 0xdf (by decide)]
    omega
  simp [encodedTwo, h]

theorem not_encodedThree (hb : byte cs 0 = hexPair n) (hn : 0xf0 ≤ n ∧ n < 256) : ¬encodedThree cs := by
  have h₁ : ¬between cs 0 "E1" "EC" := by
    rw [between_iff hb hn.right 0xe1 0xec (by decide)]
    omega
  have h₂ : ¬between cs 0 "EE" "EF" := by
    rw [between_iff hb hn.right 0xee 0xef (by decide)]
    omega
  have h₃ : byte cs 0 ≠ ['E', '0'] := fun h => by
    have := (hexPair_le_iff hn.right (show 0xe0 < 256 by decide)).mp (hb ▸ h ▸ le_refl _)
    omega
  have h₄ : byte cs 0 ≠ ['E', 'D'] := fun h => by
    have := (hexPair_le_iff hn.right (show 0xed < 256 by decide)).mp (hb ▸ h ▸ le_refl _)
    omega
  simp [encodedThree, h₁, h₂, h₃, h₄]

theorem encodedTwo_of_octets {a b : Nat} (ha : 0xc2 ≤ a ∧ a ≤ 0xdf) (hb : 0x80 ≤ b ∧ b ≤ 0xbf) :
    encodedTwo (escaped [a, b] ++ rest) := by
  have h₀ : byte (escaped [a, b] ++ rest) 0 = hexPair a := rfl
  have h₁ : byte (escaped [a, b] ++ rest) 1 = hexPair b := rfl
  rw [encodedTwo, decide_eq_true_eq, between_iff h₀ (by omega) 0xc2 0xdf (by decide)]
  exact ⟨hexByte_of_eq rfl h₀ (by omega), ha, continuation_of_eq rfl h₁ hb⟩

theorem encodedThree_of_octets {a b c : Nat} (ha : 0xe0 ≤ a ∧ a ≤ 0xef) (hb : 0x80 ≤ b ∧ b ≤ 0xbf)
    (hc : 0x80 ≤ c ∧ c ≤ 0xbf) (low : a = 0xe0 → 0xa0 ≤ b) (surrogate : a = 0xed → b ≤ 0x9f) :
    encodedThree (escaped [a, b, c] ++ rest) := by
  have h₀ : byte (escaped [a, b, c] ++ rest) 0 = hexPair a := rfl
  have h₁ : byte (escaped [a, b, c] ++ rest) 1 = hexPair b := rfl
  have h₂ : byte (escaped [a, b, c] ++ rest) 2 = hexPair c := rfl
  rw [encodedThree, decide_eq_true_eq, between_iff h₀ (by omega) 0xe1 0xec (by decide),
    between_iff h₀ (by omega) 0xee 0xef (by decide), between_iff h₁ (by omega) 0xa0 0xbf (by decide),
    between_iff h₁ (by omega) 0x80 0xbf (by decide), between_iff h₁ (by omega) 0x80 0x9f (by decide), h₀]
  refine ⟨hexByte_of_eq rfl h₀ (by omega), hexByte_of_eq rfl h₁ (by omega),
    continuation_of_eq rfl h₂ hc, ?_⟩
  by_cases hl : a = 0xe0
  case pos => exact .inl ⟨hl ▸ rfl, low hl, hb.right⟩
  case neg =>
    by_cases hs : a = 0xed
    case pos => exact .inr <| .inr <| .inl ⟨hs ▸ rfl, hb.left, surrogate hs⟩
    case neg => omega

theorem encodedFour_of_octets {a b c d : Nat} (ha : 0xf0 ≤ a ∧ a ≤ 0xf4) (hb : 0x80 ≤ b ∧ b ≤ 0xbf)
    (hc : 0x80 ≤ c ∧ c ≤ 0xbf) (hd : 0x80 ≤ d ∧ d ≤ 0xbf) (low : a = 0xf0 → 0x90 ≤ b)
    (high : a = 0xf4 → b ≤ 0x8f) : encodedFour (escaped [a, b, c, d] ++ rest) := by
  have h₀ : byte (escaped [a, b, c, d] ++ rest) 0 = hexPair a := rfl
  have h₁ : byte (escaped [a, b, c, d] ++ rest) 1 = hexPair b := rfl
  have h₂ : byte (escaped [a, b, c, d] ++ rest) 2 = hexPair c := rfl
  have h₃ : byte (escaped [a, b, c, d] ++ rest) 3 = hexPair d := rfl
  rw [encodedFour, decide_eq_true_eq, between_iff h₀ (by omega) 0xf1 0xf3 (by decide),
    between_iff h₁ (by omega) 0x90 0xbf (by decide), between_iff h₁ (by omega) 0x80 0xbf (by decide),
    between_iff h₁ (by omega) 0x80 0x8f (by decide), h₀]
  refine ⟨hexByte_of_eq rfl h₀ (by omega), hexByte_of_eq rfl h₁ (by omega),
    continuation_of_eq rfl h₂ hc, continuation_of_eq rfl h₃ hd, ?_⟩
  by_cases hl : a = 0xf0
  case pos => exact .inl ⟨hl ▸ rfl, low hl, hb.right⟩
  case neg =>
    by_cases hh : a = 0xf4
    case pos => exact .inr <| .inr ⟨hh ▸ rfl, hb.left, high hh⟩
    case neg => omega

-- One round of the scan passes the escapes of one character.
theorem scanStep_escaped {bytes : List Nat} (h : Utf8.Octets bytes) :
    scanStep (escaped bytes ++ rest) = some rest := by
  cases h with
  | @two a b ha hb =>
    have h₀ : byte (escaped [a, b] ++ rest) 0 = hexPair a := rfl
    rw [scanStep, if_neg not_raw, if_neg (not_encodedAscii h₀ (by omega)),
      if_pos (encodedTwo_of_octets ha hb)]
    rfl
  | @three a b c ha hb hc low surrogate =>
    have h₀ : byte (escaped [a, b, c] ++ rest) 0 = hexPair a := rfl
    rw [scanStep, if_neg not_raw, if_neg (not_encodedAscii h₀ (by omega)),
      if_neg (not_encodedTwo h₀ (by omega)), if_pos (encodedThree_of_octets ha hb hc low surrogate)]
    rfl
  | @four a b c d ha hb hc hd low high =>
    have h₀ : byte (escaped [a, b, c, d] ++ rest) 0 = hexPair a := rfl
    rw [scanStep, if_neg not_raw, if_neg (not_encodedAscii h₀ (by omega)),
      if_neg (not_encodedTwo h₀ (by omega)), if_neg (not_encodedThree h₀ (by omega)),
      if_pos (encodedFour_of_octets ha hb hc hd low high)]
    rfl

end Octets
section Component

variable {c : Char} {cs ds rest : List Char} {value : String}

theorem unreserved_of_ascii :
    ∀ n < 128, ((Char.ofNat n).isAlphanum ∨ Char.ofNat n ∈ ['_', '.', '-', '~']) →
      unreserved (Char.ofNat n) := by
  decide +kernel

theorem quoteByte_cases (b : UInt8) :
    (quoteByte b = [Char.ofNat b.toNat] ∧ unreserved (Char.ofNat b.toNat)) ∨
      quoteByte b = escaped [b.toNat] := by
  unfold quoteByte
  dsimp only
  split
  case isTrue h => exact .inl ⟨rfl, unreserved_of_ascii _ h.left h.right⟩
  case isFalse  => exact .inr rfl

theorem quoteByte_of_le {b : UInt8} (h : 0x80 ≤ b.toNat) : quoteByte b = '%' :: hexPair b.toNat :=
  if_neg fun hc => absurd hc.left (by omega)

theorem encodedAscii_escaped :
    ∀ n < 128, quoteByte (.ofNat n) = escaped [n] → encodedAscii (escaped [n]) := by
  decide +kernel

theorem raw_of_unreserved (h : unreserved c) : raw (c :: cs) := by
  simp [raw, glob, h]

def quoteChar (c : Char) : List Char :=
  (String.utf8EncodeChar c).flatMap quoteByte

theorem toList_encodeComponent : (encodeComponent value).toList = value.toList.flatMap quoteChar := by
  rw [encodeComponent, String.toList_ofList, Utf8.toList_toUTF8, List.flatMap_assoc]
  rfl

theorem scanStep_quoteChar : scanStep (quoteChar c ++ rest) = some rest := by
  unfold quoteChar
  cases Utf8.encodeChar_cases c with
  | inl h =>
    have ⟨hc, he⟩ := h
    have hn : (UInt8.ofNat c.toNat).toNat = c.toNat := Utf8.toNat_ofNat (by omega)
    rw [he, List.flatMap_singleton]
    have hq := quoteByte_cases (UInt8.ofNat c.toNat)
    rw [hn] at hq
    cases hq with
    | inl hq => rw [hq.left, List.singleton_append, scanStep, if_pos (raw_of_unreserved hq.right)]; rfl
    | inr hq =>
      have ha : encodedAscii (escaped [c.toNat] ++ rest) := encodedAscii_escaped _ hc hq
      rw [hq, scanStep, if_neg not_raw, if_pos ha]
      rfl
  | inr h =>
    have hq : (String.utf8EncodeChar c).flatMap quoteByte =
        escaped ((String.utf8EncodeChar c).map UInt8.toNat) := by
      rw [escaped, List.flatMap_map]
      exact List.flatMap_congr fun b hb => quoteByte_of_le (h.le _ (List.mem_map_of_mem hb))
    rw [hq, scanStep_escaped h]

theorem quoteChar_ne_nil : quoteChar c ≠ [] := by
  intro h
  have hs := @scanStep_quoteChar c []
  rw [h] at hs
  cases hs

-- Every percent sign of the text starts an escape with two upper case digits.
inductive Escaped : List Char → Prop
  | nil : Escaped []
  | plain {c : Char} {cs : List Char} (hc : c ≠ '%') (tail : Escaped cs) : Escaped (c :: cs)
  | escape {a b : Char} {cs : List Char} (ha : hexUpper a) (hb : hexUpper b) (tail : Escaped cs) :
      Escaped ('%' :: a :: b :: cs)

theorem Escaped.append (hc : Escaped cs) (hd : Escaped ds) : Escaped (cs ++ ds) := by
  induction hc with
  | nil               => exact hd
  | plain hc _ hi     => exact .plain hc hi
  | escape ha hb _ hi => exact .escape ha hb hi

theorem Escaped.of_plain (h : ∀ c ∈ cs, c ≠ '%') : Escaped cs := by
  induction cs with
  | nil          => exact .nil
  | cons c cs hi =>
    have ⟨hc, hcs⟩ := List.forall_mem_cons.mp h
    exact .plain hc (hi hcs)

theorem hexUpper_ne_percent (h : hexUpper c) : c ≠ '%' := by
  intro hc
  subst hc
  exact absurd h (by decide)

theorem Escaped.percent {a b : Char} (h : Escaped (cs ++ '%' :: a :: b :: ds)) : hexUpper a ∧ hexUpper b := by
  generalize he : cs ++ '%' :: a :: b :: ds = es at h
  induction h generalizing cs with
  | nil           => simp at he
  | plain hc _ hi =>
    cases cs with
    | nil       => exact absurd (List.cons.inj he).left.symm hc
    | cons _ cs => exact hi (List.cons.inj he).right
  | escape ha hb _ hi =>
    match cs with
    | []               => simp_all
    | [_]              =>
      simp only [List.cons_append, List.nil_append, List.cons.injEq] at he
      exact absurd he.right.left.symm (hexUpper_ne_percent ha)
    | [_, _]           =>
      simp only [List.cons_append, List.nil_append, List.cons.injEq] at he
      exact absurd he.right.right.left.symm (hexUpper_ne_percent hb)
    | _ :: _ :: _ :: _ =>
      simp only [List.cons_append, List.cons.injEq] at he
      exact hi he.right.right.right

theorem quoteByte_escaped (b : UInt8) : Escaped (quoteByte b) ∧ '/' ∉ quoteByte b := by
  cases quoteByte_cases b with
  | inl h =>
    rw [h.left]
    have hc {c : Char} (hu : unreserved c) : c ≠ '%' ∧ c ≠ '/' := by
      constructor <;> (rintro rfl; exact absurd hu (by decide))
    exact ⟨.plain (hc h.right).left .nil, by simpa using (hc h.right).right.symm⟩
  | inr h =>
    have hb : b.toNat < 256 := b.toNat_lt_size
    have h₁ := hexUpper_hexDigit (show b.toNat / 16 < 16 by omega)
    have h₂ := hexUpper_hexDigit (show b.toNat % 16 < 16 by omega)
    have hc {c : Char} (hu : hexUpper c) : '/' ≠ c := by
      rintro rfl
      exact absurd hu (by decide)
    rw [h]
    exact ⟨.escape h₁ h₂ .nil, by simp [escaped, hexPair, hc h₁, hc h₂]⟩

theorem Escaped.flatMap {α : Type} {f : α → List Char} {as : List α} (h : ∀ a ∈ as, Escaped (f a)) :
    Escaped (as.flatMap f) := by
  induction as with
  | nil           => exact .nil
  | cons hd tl hi =>
    have ⟨hh, ht⟩ := List.forall_mem_cons.mp h
    exact hh.append (hi ht)

theorem encodeComponent_escaped : Escaped (encodeComponent value).toList := by
  rw [encodeComponent, String.toList_ofList]
  exact .flatMap fun b _ => (quoteByte_escaped b).left

theorem slash_not_mem_encodeComponent : '/' ∉ (encodeComponent value).toList := by
  rw [encodeComponent, String.toList_ofList, List.mem_flatMap]
  exact fun ⟨b, _, h⟩ => (quoteByte_escaped b).right h

theorem encodeComponent_ne_nil (h : value ≠ "") : (encodeComponent value).toList ≠ [] := by
  rw [toList_encodeComponent]
  cases hv : value.toList with
  | nil       => exact absurd (String.toList_eq_nil_iff.mp hv) h
  | cons c cs => simp [quoteChar_ne_nil]

end Component

section Scan

variable {cs rest : List Char} {value : String}

-- The scan reaches the end with a round for each character, or fewer.
def Scans (cs : List Char) : Prop :=
  ∀ fuel, cs.length ≤ fuel → scanAddress fuel cs

theorem Scans.step (h : scanStep (cs ++ rest) = some rest) (hc : cs ≠ []) (hr : Scans rest) :
    Scans (cs ++ rest) := by
  intro fuel hf
  cases cs with
  | nil       => exact absurd rfl hc
  | cons c cs =>
    cases fuel with
    | zero      => simp at hf
    | succ fuel =>
      rw [List.cons_append, scanAddress, ← List.cons_append, h]
      exact hr fuel (by simp at hf; omega)

theorem Scans.nil : Scans [] :=
  fun fuel _ => by cases fuel <;> rfl

theorem Scans.component (hr : Scans rest) : Scans ((encodeComponent value).toList ++ rest) := by
  rw [toList_encodeComponent]
  induction value.toList with
  | nil          => exact hr
  | cons c cs hi =>
    rw [List.flatMap_cons, List.append_assoc]
    exact .step scanStep_quoteChar quoteChar_ne_nil hi

theorem Scans.raw (hc : ∀ c ∈ cs, unreserved c ∨ c = '/') : Scans cs := by
  induction cs with
  | nil          => exact .nil
  | cons c cs hi =>
    have ⟨hh, ht⟩ := List.forall_mem_cons.mp hc
    have hr : Mail.raw (c :: cs) := by
      cases hh with
      | inl hu => exact raw_of_unreserved hu
      | inr hs => subst hs; rfl
    exact @Scans.step [c] _ (by rw [List.singleton_append, scanStep, if_pos hr]; rfl) (by simp) (hi ht)

end Scan
section Address

variable {a : AgentAddress} {text projectId : String}

structure AgentAddress.Nonempty (a : AgentAddress) : Prop where
  projectId  : a.projectId ≠ ""
  agentId    : a.agentId ≠ ""
  generation : 1 ≤ a.generation

def AgentAddress.tail (a : AgentAddress) : List Char :=
  (encodeComponent a.projectId).toList ++ '/' :: ((encodeComponent a.agentId).toList ++
    '/' :: Nat.toDigits 10 a.generation)

theorem toList_toUri : a.toUri.toList = "agent://".toList ++ a.tail := by
  simp [AgentAddress.toUri, AgentAddress.tail, Nat.toList_repr]

theorem isDigit_ne {c d : Char} (h : c.isDigit) (hd : d.isDigit = false) : c ≠ d := by
  rintro rfl
  simp [hd] at h

theorem unreserved_of_isDigit {c : Char} (h : c.isDigit) : unreserved c := by
  simp only [Char.isDigit, ge_iff_le, Bool.and_eq_true, decide_eq_true_eq] at h
  have hw : within '0' '9' c := by
    simp only [within, decide_eq_true_eq]
    exact h
  simp [unreserved, hw]

theorem slash_not_mem_toDigits {n : Nat} : '/' ∉ Nat.toDigits 10 n :=
  fun h => isDigit_ne (isDigit_toDigits _ h) (by decide) rfl

theorem escaped_toUri : Escaped a.toUri.toList := by
  rw [toList_toUri, AgentAddress.tail]
  refine .append (.of_plain (by simp)) (encodeComponent_escaped.append (.plain (by decide) ?_))
  refine encodeComponent_escaped.append (.plain (by decide) (.of_plain fun c hc => ?_))
  exact isDigit_ne (isDigit_toDigits c hc) (by decide)

-- No percent sign is followed by a lower case digit.
theorem not_glob_percent {p q : Char → Bool} (h : ∀ x y, p x → q y → ¬(hexUpper x ∧ hexUpper y)) :
    ¬glob [.star, .one (· = '%'), .one p, .one q, .star] a.toUri.toList := by
  rw [glob_star_iff]
  intro ⟨cs, ds, he, hg⟩
  have ⟨c₀, ds₀, h₀, hc₀, hg⟩ := glob_one_iff.mp hg
  have ⟨c₁, ds₁, h₁, hc₁, hg⟩ := glob_one_iff.mp hg
  have ⟨c₂, ds₂, h₂, hc₂, _⟩ := glob_one_iff.mp hg
  have hp : c₀ = '%' := by simpa using hc₀
  subst h₀ h₁ h₂ hp
  exact h c₁ c₂ hc₁ hc₂ (Escaped.percent (he ▸ escaped_toUri))

theorem hexUpper_not_hexLower {c : Char} (h : hexLower c) : ¬hexUpper c := by
  simp only [hexLower, hexUpper, within, decide_eq_true_eq] at *
  rintro (⟨_, hu⟩ | ⟨_, hu⟩)
  · exact absurd (le_trans h.left hu) (by decide)
  · exact absurd (le_trans h.left hu) (by decide)

theorem filter_slash {cs : List Char} (h : '/' ∉ cs) : cs.filter (· ≠ '/') = cs := by
  rw [List.filter_eq_self]
  intro c hc
  have hn : c ≠ '/' := fun he => h (he ▸ hc)
  simpa using hn

theorem generationText_toUri : rtrimDigits a.toUri.toList =
    "agent://".toList ++ (encodeComponent a.projectId).toList ++ '/' :: (encodeComponent a.agentId).toList ++ ['/'] ∧
      generationText a.toUri.toList = Nat.toDigits 10 a.generation := by
  have he : a.toUri.toList = ("agent://".toList ++ (encodeComponent a.projectId).toList ++
      '/' :: (encodeComponent a.agentId).toList) ++ '/' :: Nat.toDigits 10 a.generation := by
    rw [toList_toUri, AgentAddress.tail]
    simp
  have ht := @rtrimDigits_append a.generation ("agent://".toList ++ (encodeComponent a.projectId).toList ++
      '/' :: (encodeComponent a.agentId).toList) ('/') (by decide)
  rw [← he] at ht
  refine ⟨ht, ?_⟩
  rw [generationText, ht, he.trans (List.append_cons ..), List.drop_left]

-- Of an address that is written in its canonical form the guards reject those whose generation does not
-- fit into an INTEGER.
theorem generationGuard_toUri (h : 1 ≤ a.generation) :
    generationGuard a.toUri.toList ↔ a.generation < 2 ^ 63 := by
  have ⟨hr, hg⟩ := generationText_toUri (a := a)
  have hc : a.toUri.toList.length - (a.toUri.toList.filter (· ≠ '/')).length = 4 := by
    rw [toList_toUri, AgentAddress.tail]
    simp only [List.filter_append, List.filter_cons, filter_slash slash_not_mem_encodeComponent,
      filter_slash slash_not_mem_toDigits]
    simp
    omega
  have hl : (rtrimDigits a.toUri.toList).getLast? = some '/' := by
    rw [hr, List.getLast?_concat]
  have hm : 1 ≤ min a.generation maxInteger := by
    unfold maxInteger
    omega
  rw [generationGuard, decide_eq_true_eq, hg, printInteger_castInteger, castInteger_toDigits]
  exact ⟨fun h => h.right.right.right, fun h => ⟨hc, hl, hm, h⟩⟩

theorem instr_append {cs ds : List Char} (h : '/' ∉ cs) : instr (cs ++ '/' :: ds) '/' = cs.length + 1 := by
  rw [instr, if_pos (by simp), List.idxOf_append_of_notMem h, List.idxOf_cons_self, Nat.add_zero]

theorem canonicalAddressGuard_toUri (h : a.Nonempty) :
    canonicalAddressGuard a.toUri.toList ↔ a.generation < 2 ^ 63 := by
  have hp := List.length_pos_iff.mpr (encodeComponent_ne_nil h.projectId)
  have ha := List.length_pos_iff.mpr (encodeComponent_ne_nil h.agentId)
  have hd : a.toUri.toList.drop 8 = a.tail := by
    rw [toList_toUri]
    rfl
  have ht : a.toUri.toList.take 8 = "agent://".toList := by
    rw [toList_toUri]
    rfl
  have hi : instr a.tail '/' = (encodeComponent a.projectId).toList.length + 1 :=
    instr_append slash_not_mem_encodeComponent
  have hj : instr (a.tail.drop (instr a.tail '/')) '/' = (encodeComponent a.agentId).toList.length + 1 := by
    rw [hi, AgentAddress.tail, List.append_cons, List.drop_left' (by simp)]
    exact instr_append slash_not_mem_encodeComponent
  have hs : Scans a.tail := by
    refine .component (@Scans.step ['/'] _ rfl (by simp) (.component (.raw fun c hc => ?_)))
    cases List.mem_cons.mp hc with
    | inl hc => exact .inr hc
    | inr hc => exact .inl (unreserved_of_isDigit (isDigit_toDigits c hc))
  simp only [canonicalAddressGuard, decide_eq_true_eq, hd, ht, hj, generationGuard_toUri h.generation]
  exact ⟨fun hc => hc.right.left, fun hg => ⟨trivial, hg, by omega, by omega, hs _ (Nat.le_refl _)⟩⟩

theorem addressGuard_toUri (h : a.Nonempty) : addressGuard a.toUri ↔ a.generation < 2 ^ 63 := by
  have hg : glob (literal "agent://" ++ [.star, .one (· = '/'), .star, .one (· = '/'), .star])
      a.toUri.toList := by
    rw [toList_toUri, glob_literal]
    refine glob_star_append (glob_one.mpr ⟨rfl, glob_star_append (glob_one.mpr ⟨rfl, glob_star⟩)⟩)
  have h₁ := not_glob_percent (a := a) (p := hexLower) (q := hexAny)
    fun x y hx _ hu => hexUpper_not_hexLower hx hu.left
  have h₂ := not_glob_percent (a := a) (p := hexAny) (q := hexLower)
    fun x y _ hy hu => hexUpper_not_hexLower hy hu.right
  simp only [addressGuard, decide_eq_true_eq, hg, h₁, h₂, generationGuard_toUri h.generation,
    canonicalAddressGuard_toUri h]
  simp

end Address
end Mail
