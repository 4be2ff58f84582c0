import BridleModel.Mailbox.Theorems.Legacy

open Python Sqlite

namespace Mail

section Decode

variable {c : Char} {cs rest : List Char} {bytes : List UInt8} {b : UInt8} {value : String} {n : Nat}

theorem hexValue_hexDigit (h : n < 16) : hexValue (hexDigit n) = some n := by
  decide +revert

theorem utf8EncodeChar_ascii : ∀ n < 128, String.utf8EncodeChar (Char.ofNat n) = [UInt8.ofNat n] := by
  decide +kernel

theorem toUTF8_ascii (h : n < 128) : (Char.ofNat n).toString.toUTF8.toList = [UInt8.ofNat n] := by
  have ht : (Char.ofNat n).toString.toList = [Char.ofNat n] := String.toList_singleton _
  rw [Utf8.toList_toUTF8, ht, List.flatMap_singleton, utf8EncodeChar_ascii n h]

theorem unquoteToBytes_quoteByte : unquoteToBytes (quoteByte b ++ rest) = (unquoteToBytes rest).map (b :: ·) := by
  have hb := b.toNat_lt
  rw [quoteByte]
  split
  case isTrue h  =>
    have hne : Char.ofNat b.toNat ≠ '%' := by
      intro he
      rw [he] at h
      exact absurd h.2 (by decide)
    rw [List.singleton_append, unquoteToBytes, toUTF8_ascii h.1]
    · simp
    · exact fun _ _ _ he => absurd he hne
    · exact hne
  case isFalse h =>
    simp only [List.cons_append, List.nil_append]
    rw [unquoteToBytes, hexValue_hexDigit (by omega), hexValue_hexDigit (by omega)]
    have he : b.toNat / 16 * 16 + b.toNat % 16 = b.toNat := by omega
    cases unquoteToBytes rest with
    | none    => rfl
    | some bs => simp [he]

theorem unquoteToBytes_flatMap : unquoteToBytes (bytes.flatMap quoteByte) = some bytes := by
  induction bytes with
  | nil          => rfl
  | cons b bs hi => rw [List.flatMap_cons, unquoteToBytes_quoteByte, hi, Option.map_some]

theorem decodeComponent_encodeComponent (h : value ≠ "") : decodeComponent (encodeComponent value) = some value := by
  have hu : unquoteToBytes (encodeComponent value).toList = some value.toUTF8.toList := by
    rw [encodeComponent, String.toList_ofList, unquoteToBytes_flatMap]
  have hd : String.fromUTF8? ⟨value.toUTF8.toList.toArray⟩ = some value := by
    rw [show (⟨value.toUTF8.toList.toArray⟩ : ByteArray) = value.toUTF8.toList.toByteArray from
      ByteArray.ext List.data_toByteArray.symm, Utf8.fromUTF8?_toList]
  rw [decodeComponent, hu]
  simp only
  rw [hd]
  simp [h]

end Decode

section Parse

variable {a b : AgentAddress} {text : String} {n : Nat}

theorem generation_toDigits :
    (Nat.toDigits 10 n).foldl (fun n c => 10 * n + (c.toNat - '0'.toNat)) 0 = n :=
  Nat.ofDigitChars_ten_toDigits

theorem splitOn_tail : a.tail.splitOn '/' =
    [(encodeComponent a.projectId).toList, (encodeComponent a.agentId).toList, Nat.toDigits 10 a.generation] := by
  have hs : ∀ l ∈ [(encodeComponent a.projectId).toList, (encodeComponent a.agentId).toList,
      Nat.toDigits 10 a.generation], '/' ∉ l := by
    simp [slash_not_mem_encodeComponent, slash_not_mem_toDigits]
  rw [← List.splitOn_intercalate '/' hs (by simp), AgentAddress.tail]
  simp [List.intercalate]

theorem AgentAddress.parse_toUri (h : a.Nonempty) : parse a.toUri = .ok a := by
  have hp : "agent://".toList.isPrefixOf a.toUri.toList = true := by
    rw [toList_toUri, List.isPrefixOf_iff_prefix]
    exact List.prefix_append ..
  have hd : a.toUri.toList.drop "agent://".length = a.tail := by
    rw [toList_toUri]
    rfl
  have hg : (Nat.toDigits 10 a.generation).all (·.isDigit) = true :=
    List.all_eq_true.mpr isDigit_toDigits
  rw [parse, if_neg (not_not_intro hp), hd, splitOn_tail]
  simp only [String.ofList_toList, decodeComponent_encodeComponent h.projectId,
    decodeComponent_encodeComponent h.agentId, generation_toDigits]
  exact if_pos ⟨hg, h.generation, trivial⟩

theorem AgentAddress.toUri_injective (ha : a.Nonempty) (hb : b.Nonempty) (h : a.toUri = b.toUri) : a = b := by
  have hp := parse_toUri ha
  rw [h, parse_toUri hb] at hp
  exact (Except.ok.inj hp).symm

end Parse

section Scan

variable {c : Char} {cs rest : List Char} {a b n k lo hi : Nat} {x y : String}

theorem hexDigit_of_hexUpper (h : hexUpper c) : ∃ n < 16, c = hexDigit n := by
  have hn : 48 ≤ c.toNat ∧ c.toNat ≤ 57 ∨ 65 ≤ c.toNat ∧ c.toNat ≤ 70 := by
    simp only [hexUpper, within, decide_eq_true_eq] at h
    exact h
  have hc := Char.ofNat_toNat c
  generalize c.toNat = n at *
  subst hc
  cases hn with
  | inl hn =>
    refine ⟨n - 48, by omega, ?_⟩
    rw [hexDigit, if_pos (by omega)]
    congr
    exact (Nat.add_sub_cancel' hn.1).symm
  | inr hn =>
    refine ⟨n - 55, by omega, ?_⟩
    rw [hexDigit, if_neg (by omega)]
    congr
    have ha : 'A'.toNat = 65 := rfl
    omega

theorem hexPair_of_hexByte (h : hexByte cs k) : sign cs k = ['%'] ∧ ∃ n < 256, byte cs k = hexPair n := by
  rw [hexByte, decide_eq_true_eq] at h
  refine ⟨h.1, ?_⟩
  obtain ⟨x, ds, hx, hux, hg⟩ := glob_one_iff.mp h.2
  obtain ⟨y, es, rfl, huy, hg⟩ := glob_one_iff.mp hg
  obtain rfl := glob_nil.mp hg
  obtain ⟨a, ha, rfl⟩ := hexDigit_of_hexUpper hux
  obtain ⟨b, hb, rfl⟩ := hexDigit_of_hexUpper huy
  refine ⟨a * 16 + b, by omega, ?_⟩
  rw [hx, hexPair, show (a * 16 + b) / 16 = a by omega, show (a * 16 + b) % 16 = b by omega]

theorem drop_of_escape (hs : sign cs k = ['%']) (hb : byte cs k = hexPair n) :
    cs.drop (3 * k) = escaped [n] ++ cs.drop (3 * (k + 1)) := by
  have h₁ : cs.drop (3 * k) = ['%'] ++ cs.drop (3 * k + 1) := by
    rw [← hs, sign, ← List.drop_drop]
    exact (List.take_append_drop 1 _).symm
  have h₂ : cs.drop (3 * k + 1) = hexPair n ++ cs.drop (3 * (k + 1)) := by
    rw [← hb, byte, show 3 * (k + 1) = 3 * k + 1 + 2 by omega, ← List.drop_drop (i := 2)]
    exact (List.take_append_drop 2 _).symm
  rw [h₁, h₂]
  rfl

-- The octets of the escapes that a round of the scan passes
theorem octets_of_encodedTwo (h : encodedTwo cs) : ∃ bytes, Utf8.Octets bytes ∧ cs = escaped bytes ++ cs.drop 6 := by
  simp only [encodedTwo, continuation, decide_eq_true_eq] at h
  obtain ⟨h₀, hr, h₁, hc⟩ := h
  obtain ⟨hs₀, a, ha, hb₀⟩ := hexPair_of_hexByte h₀
  obtain ⟨hs₁, b, hb, hb₁⟩ := hexPair_of_hexByte h₁
  rw [between_iff hb₀ ha 0xc2 0xdf (by decide)] at hr
  rw [between_iff hb₁ hb 0x80 0xbf (by decide)] at hc
  refine ⟨[a, b], .two hr hc, ?_⟩
  have e₀ := drop_of_escape hs₀ hb₀
  rw [drop_of_escape hs₁ hb₁] at e₀
  exact e₀

theorem byte_eq_iff {m : Nat} {cs' : List Char} (hb : byte cs k = hexPair n) (hn : n < 256) (h : cs' = hexPair m)
    (hm : m < 256) : byte cs k = cs' ↔ n = m := by
  rw [hb, h]
  constructor
  · intro he
    exact le_antisymm ((hexPair_le_iff hn hm).mp he.le) ((hexPair_le_iff hm hn).mp he.ge)
  · exact fun he => he ▸ rfl

theorem octets_of_encodedThree (h : encodedThree cs) : ∃ bytes, Utf8.Octets bytes ∧ cs = escaped bytes ++ cs.drop 9 := by
  simp only [encodedThree, continuation, decide_eq_true_eq] at h
  obtain ⟨h₀, h₁, ⟨h₂, hc⟩, hr⟩ := h
  obtain ⟨hs₀, a, ha, hb₀⟩ := hexPair_of_hexByte h₀
  obtain ⟨hs₁, b, hb, hb₁⟩ := hexPair_of_hexByte h₁
  obtain ⟨hs₂, c, hc', hb₂⟩ := hexPair_of_hexByte h₂
  rw [between_iff hb₂ hc' 0x80 0xbf (by decide)] at hc
  rw [byte_eq_iff hb₀ ha (by decide : _ = hexPair 0xe0) (by decide), between_iff hb₁ hb 0xa0 0xbf (by decide),
    between_iff hb₀ ha 0xe1 0xec (by decide), between_iff hb₁ hb 0x80 0xbf (by decide),
    byte_eq_iff hb₀ ha (by decide : _ = hexPair 0xed) (by decide), between_iff hb₁ hb 0x80 0x9f (by decide),
    between_iff hb₀ ha 0xee 0xef (by decide)] at hr
  have e₀ := drop_of_escape hs₀ hb₀
  rw [drop_of_escape hs₁ hb₁, drop_of_escape hs₂ hb₂] at e₀
  exact ⟨[a, b, c], .three (by omega) (by omega) hc (by omega) (by omega), e₀⟩

theorem octets_of_encodedFour (h : encodedFour cs) : ∃ bytes, Utf8.Octets bytes ∧ cs = escaped bytes ++ cs.drop 12 := by
  simp only [encodedFour, continuation, decide_eq_true_eq] at h
  obtain ⟨h₀, h₁, ⟨h₂, hc⟩, ⟨h₃, hd⟩, hr⟩ := h
  obtain ⟨hs₀, a, ha, hb₀⟩ := hexPair_of_hexByte h₀
  obtain ⟨hs₁, b, hb, hb₁⟩ := hexPair_of_hexByte h₁
  obtain ⟨hs₂, c, hc', hb₂⟩ := hexPair_of_hexByte h₂
  obtain ⟨hs₃, d, hd', hb₃⟩ := hexPair_of_hexByte h₃
  rw [between_iff hb₂ hc' 0x80 0xbf (by decide)] at hc
  rw [between_iff hb₃ hd' 0x80 0xbf (by decide)] at hd
  rw [byte_eq_iff hb₀ ha (by decide : _ = hexPair 0xf0) (by decide), between_iff hb₁ hb 0x90 0xbf (by decide),
    between_iff hb₀ ha 0xf1 0xf3 (by decide), between_iff hb₁ hb 0x80 0xbf (by decide),
    byte_eq_iff hb₀ ha (by decide : _ = hexPair 0xf4) (by decide), between_iff hb₁ hb 0x80 0x8f (by decide)] at hr
  have e₀ := drop_of_escape hs₀ hb₀
  rw [drop_of_escape hs₁ hb₁, drop_of_escape hs₂ hb₂, drop_of_escape hs₃ hb₃] at e₀
  exact ⟨[a, b, c, d], .four (by omega) (by omega) hc hd (by omega) (by omega), e₀⟩

theorem quoteChar_of_octets (h : Utf8.Octets ((String.utf8EncodeChar c).map UInt8.toNat)) :
    quoteChar c = escaped ((String.utf8EncodeChar c).map UInt8.toNat) := by
  rw [quoteChar, escaped, List.flatMap_map]
  exact List.flatMap_congr fun b hb => quoteByte_of_le (h.le _ (List.mem_map_of_mem hb))

theorem exists_quoteChar {bytes : List Nat} (h : Utf8.Octets bytes) : ∃ c, quoteChar c = escaped bytes := by
  obtain ⟨c, rfl⟩ := Utf8.encodeChar_of_octets h
  exact ⟨c, quoteChar_of_octets h⟩

theorem quoteChar_ascii (h : n < 128) : quoteChar (Char.ofNat n) = quoteByte (.ofNat n) := by
  rw [quoteChar, utf8EncodeChar_ascii n h, List.flatMap_singleton]

theorem quoteByte_of_unreserved : ∀ n < 128, unreserved (Char.ofNat n) → quoteByte (.ofNat n) = [Char.ofNat n] := by
  decide +kernel

theorem quoteByte_of_reserved : ∀ n < 128, (¬(0x30 ≤ n ∧ n ≤ 0x39) ∧ ¬(0x41 ≤ n ∧ n ≤ 0x5a) ∧
    ¬(0x61 ≤ n ∧ n ≤ 0x7a) ∧ n ∉ [0x2d, 0x2e, 0x5f, 0x7e]) → quoteByte (.ofNat n) = escaped [n] := by
  decide +kernel

theorem quoteChar_of_unreserved (h : unreserved c) : quoteChar c = [c] := by
  have hz : c ≤ '~' := by
    simp only [unreserved, within, decide_eq_true_eq] at h
    obtain (h | h | h | h) := h
    · exact le_trans h.2 (by decide)
    · exact le_trans h.2 (by decide)
    · exact le_trans h.2 (by decide)
    · revert c
      simp
  have hn : c.toNat < 128 := lt_of_le_of_lt (show c.toNat ≤ 126 from hz) (by decide)
  have hq := quoteByte_of_unreserved c.toNat hn
  rw [← quoteChar_ascii hn, Char.ofNat_toNat] at hq
  exact hq h

theorem quoteChar_of_encodedAscii (h : encodedAscii cs) : ∃ c, cs = quoteChar c ++ cs.drop 3 := by
  simp only [encodedAscii, decide_eq_true_eq] at h
  obtain ⟨h₀, hr, hd, hu, hl, hm⟩ := h
  obtain ⟨hs, n, hn, hb⟩ := hexPair_of_hexByte h₀
  rw [between_iff hb hn 0 0x7f (by decide)] at hr
  rw [between_iff hb hn 0x30 0x39 (by decide)] at hd
  rw [between_iff hb hn 0x41 0x5a (by decide)] at hu
  rw [between_iff hb hn 0x61 0x7a (by decide)] at hl
  have hm : n ∉ [0x2d, 0x2e, 0x5f, 0x7e] := by
    rw [hb] at hm
    intro hn
    exact hm (List.mem_map_of_mem (f := hexPair) hn)
  refine ⟨Char.ofNat n, ?_⟩
  rw [quoteChar_ascii (by omega), quoteByte_of_reserved n (by omega) ⟨hd, hu, hl, hm⟩]
  exact drop_of_escape hs hb

-- A round of the scan passes a slash or what stands for one character.
theorem scanStep_cases (h : scanStep cs = some rest) : cs = '/' :: rest ∨ ∃ c, cs = quoteChar c ++ rest := by
  rw [scanStep] at h
  by_cases hr : raw cs
  case pos =>
    rw [if_pos hr] at h
    cases h
    rw [raw, decide_eq_true_eq] at hr
    have ht := List.take_append_drop 1 cs
    cases hr with
    | inr hs =>
      rw [hs] at ht
      exact .inl ht.symm
    | inl hu =>
      obtain ⟨c, ds, hc, huc, hg⟩ := glob_one_iff.mp hu
      obtain rfl := glob_nil.mp hg
      rw [hc] at ht
      exact .inr ⟨c, by rw [quoteChar_of_unreserved huc, ht]⟩
  rw [if_neg hr] at h
  by_cases ha : encodedAscii cs
  case pos =>
    rw [if_pos ha] at h
    cases h
    exact .inr (quoteChar_of_encodedAscii ha)
  rw [if_neg ha] at h
  have passes {n : Nat} (hd : ∃ bytes, Utf8.Octets bytes ∧ cs = escaped bytes ++ cs.drop n) :
      ∃ c, cs = quoteChar c ++ cs.drop n := by
    obtain ⟨bytes, ho, he⟩ := hd
    obtain ⟨c, hc⟩ := exists_quoteChar ho
    exact ⟨c, hc ▸ he⟩
  by_cases h₂ : encodedTwo cs
  case pos =>
    rw [if_pos h₂] at h
    cases h
    exact .inr (passes (octets_of_encodedTwo h₂))
  rw [if_neg h₂] at h
  by_cases h₃ : encodedThree cs
  case pos =>
    rw [if_pos h₃] at h
    cases h
    exact .inr (passes (octets_of_encodedThree h₃))
  rw [if_neg h₃] at h
  by_cases h₄ : encodedFour cs
  case pos =>
    rw [if_pos h₄] at h
    cases h
    exact .inr (passes (octets_of_encodedFour h₄))
  rw [if_neg h₄] at h
  cases h

-- A text of slashes and of what stands for characters
inductive Pieces : List Char → Prop
  | nil : Pieces []
  | slash {cs : List Char} (tail : Pieces cs) : Pieces ('/' :: cs)
  | char {c : Char} {cs : List Char} (tail : Pieces cs) : Pieces (quoteChar c ++ cs)

theorem pieces_of_scanAddress {fuel : Nat} (h : scanAddress fuel cs = true) : Pieces cs := by
  fun_induction scanAddress fuel cs with
  | case1                      => exact .nil
  | case2                      => contradiction
  | case3                      => contradiction
  | case4 fuel c cs rest hs hi =>
    cases scanStep_cases hs with
    | inl he => exact he ▸ .slash (hi h)
    | inr he =>
      obtain ⟨d, he⟩ := he
      exact he ▸ .char (hi h)

theorem slash_not_mem_quoteChar : '/' ∉ quoteChar c := by
  rw [quoteChar, List.mem_flatMap]
  exact fun ⟨b, _, hb⟩ => (quoteByte_escaped b).right hb

-- Between two slashes stand whole characters.
theorem Pieces.component {ds : List Char} (h : Pieces (cs ++ '/' :: ds)) (hs : '/' ∉ cs) :
    (∃ value : List Char, cs = value.flatMap quoteChar) ∧ Pieces ds := by
  generalize he : cs ++ '/' :: ds = text at h
  induction h generalizing cs with
  | nil           => simp at he
  | slash tail _  =>
    cases cs with
    | nil      =>
      injection he with _ he
      exact ⟨⟨[], rfl⟩, he ▸ tail⟩
    | cons c _ =>
      injection he with hc _
      exact absurd (hc ▸ List.mem_cons_self) hs
  | @char c rest tail hi =>
    cases List.append_eq_append_iff.mp he with
    | inl h =>
      -- the slash would stand within the character
      obtain ⟨es, hq, hr⟩ := h
      cases es with
      | nil       =>
        rw [List.append_nil] at hq
        rw [List.nil_append] at hr
        have hn : '/' ∉ ([] : List Char) := List.not_mem_nil
        obtain ⟨⟨value, hv⟩, hp⟩ := hi hn hr
        exact ⟨⟨[c], by simp [hq]⟩, hp⟩
      | cons e es =>
        injection hr with hc _
        subst hc
        exact absurd (hq ▸ List.mem_append_right cs List.mem_cons_self) slash_not_mem_quoteChar
    | inr h =>
      obtain ⟨es, rfl, hr⟩ := h
      obtain ⟨⟨value, rfl⟩, hp⟩ := hi (fun hm => hs (List.mem_append_right _ hm)) hr.symm
      exact ⟨⟨c :: value, by rw [List.flatMap_cons]⟩, hp⟩

end Scan

section Guard

variable {cs g p q : List Char} {u : String} {a : AgentAddress}

theorem encodeComponent_ofList {value : List Char} :
    (encodeComponent (.ofList value)).toList = value.flatMap quoteChar := by
  rw [toList_encodeComponent, String.toList_ofList]

theorem eq_of_last {ds t : List Char} {c : Char} (h : cs ++ c :: g = ds ++ c :: t) (hg : c ∉ g) (ht : c ∉ t) :
    g = t := by
  have tail {es g t : List Char} (h : c :: g = es ++ c :: t) (hg : c ∉ g) : g = t := by
    cases es with
    | nil      => exact (List.cons.inj h).2
    | cons e _ => exact absurd ((List.cons.inj h).2 ▸ List.mem_append_right _ List.mem_cons_self) hg
  cases List.append_eq_append_iff.mp h with
  | inl h =>
    obtain ⟨es, _, h⟩ := h
    exact tail h hg
  | inr h =>
    obtain ⟨es, _, h⟩ := h
    exact (tail h ht).symm

theorem length_filter_slash : (cs.filter (· ≠ '/')).length + cs.count '/' = cs.length := by
  induction cs with
  | nil          => rfl
  | cons c cs hi =>
    by_cases hc : c = '/'
    case pos =>
      rw [hc, List.filter_cons_of_neg (by simp), List.count_cons_self, List.length_cons]
      omega
    case neg =>
      rw [List.filter_cons_of_pos (by simpa using hc), List.count_cons_of_ne (fun h => hc h), List.length_cons,
        List.length_cons]
      omega

-- The text behind the last slash is a number in decimal that fits into an INTEGER.
theorem generation_of_guard (hs : '/' ∉ g) (h : generationGuard (cs ++ '/' :: g)) :
    ∃ n, 1 ≤ n ∧ n < 2 ^ 63 ∧ g = Nat.toDigits 10 n := by
  rw [generationGuard, decide_eq_true_eq] at h
  obtain ⟨_, hl, h₁, hp⟩ := h
  obtain ⟨ds, hd⟩ := List.getLast?_eq_some_iff.mp hl
  obtain ⟨t, ht, hdigits⟩ : ∃ t, cs ++ '/' :: g = rtrimDigits (cs ++ '/' :: g) ++ t ∧ ∀ c ∈ t, c.isDigit := by
    refine ⟨List.rtakeWhile (·.isDigit) (cs ++ '/' :: g), ?_, fun c hc => List.mem_rtakeWhile_imp hc⟩
    rw [rtrimDigits, List.rdropWhile, List.rtakeWhile, ← List.reverse_append, List.takeWhile_append_dropWhile,
      List.reverse_reverse]
  have he : g = t := by
    rw [hd, List.append_assoc, List.singleton_append] at ht
    exact eq_of_last ht hs fun hm => isDigit_ne (hdigits _ hm) (by decide) rfl
  have hg : generationText (cs ++ '/' :: g) = g := by
    calc
      generationText (cs ++ '/' :: g) = (rtrimDigits (cs ++ '/' :: g) ++ t).drop (rtrimDigits (cs ++ '/' :: g)).length :=
        congrArg (List.drop _) ht
      _ = g := by rw [List.drop_left, he]
  rw [hg] at h₁ hp
  refine ⟨castInteger g, h₁, ?_, hp.symm⟩
  have hm : castInteger g ≤ maxInteger := min_le_right _ _
  unfold maxInteger at hm
  omega

theorem component_ne_empty {value : List Char} (h : value.flatMap quoteChar ≠ []) : String.ofList value ≠ "" := by
  intro he
  obtain rfl : value = [] := by simpa using congrArg String.toList he
  exact h rfl

-- What the guards accept is the spelling of an address whose generation fits into an INTEGER.
theorem address_of_guard (h : addressGuard u) : ∃ a : AgentAddress, a.Nonempty ∧ a.generation < 2 ^ 63 ∧ a.toUri = u := by
  simp only [addressGuard, canonicalAddressGuard, decide_eq_true_eq] at h
  obtain ⟨_, _, _, hgen, hpre, _, hp, hq, hscan⟩ := h
  have hu : u.toList = "agent://".toList ++ u.toList.drop 8 := by
    rw [← hpre, List.take_append_drop]
  generalize ht : u.toList.drop 8 = tail at *
  have hc : tail.count '/' = 2 := by
    have hcount := hgen
    rw [generationGuard, decide_eq_true_eq] at hcount
    have hf := @length_filter_slash u.toList
    have hn : u.toList.count '/' = 4 := by omega
    rw [hu, List.count_append] at hn
    have h8 : "agent://".toList.count '/' = 2 := by decide
    omega
  obtain ⟨p, rest, rfl, hps⟩ := List.eq_append_cons_of_mem (List.count_pos_iff.mp (by omega : 0 < tail.count '/'))
  have hc₁ : rest.count '/' = 1 := by
    rw [List.count_append, List.count_cons_self, List.count_eq_zero_of_not_mem hps] at hc
    omega
  obtain ⟨q, g, rfl, hqs⟩ := List.eq_append_cons_of_mem (List.count_pos_iff.mp (by omega : 0 < rest.count '/'))
  have hgs : '/' ∉ g := by
    rw [List.count_append, List.count_cons_self, List.count_eq_zero_of_not_mem hqs] at hc₁
    exact List.count_eq_zero.mp (by omega)
  obtain ⟨⟨v, rfl⟩, hpieces⟩ := (pieces_of_scanAddress hscan).component hps
  obtain ⟨⟨w, rfl⟩, _⟩ := hpieces.component hqs
  rw [instr_append hps] at hp hq
  rw [List.append_cons, List.drop_left' (by simp), instr_append hqs] at hq
  have hgen : generationGuard (("agent://".toList ++ v.flatMap quoteChar ++ '/' :: w.flatMap quoteChar) ++ '/' :: g) := by
    rw [hu] at hgen
    simpa using hgen
  obtain ⟨n, hn, hlt, rfl⟩ := generation_of_guard hgs hgen
  refine ⟨⟨.ofList v, .ofList w, n⟩, ⟨component_ne_empty ?_, component_ne_empty ?_, hn⟩, hlt, ?_⟩
  · exact fun he => by rw [he] at hp; simp at hp
  · exact fun he => by rw [he] at hq; simp at hq
  · refine String.toList_injective ?_
    rw [toList_toUri, hu, AgentAddress.tail, encodeComponent_ofList, encodeComponent_ofList]

-- A text is the spelling of one address at most, the parser reads it as that address, and the guards accept what
-- the parser accepts.
structure OneSpelling (u : String) : Prop where
  parses   : ∀ a : AgentAddress, a.Nonempty → a.toUri = u → AgentAddress.parse u = .ok a
  spelled  : ∀ a, AgentAddress.parse u = .ok a → a.toUri = u
  distinct : ∀ a b : AgentAddress, a.Nonempty → b.Nonempty → a.toUri = u → b.toUri = u → a = b
  guarded  : addressGuard u = true ↔ ∃ a, AgentAddress.parse u = .ok a

theorem guarded_iff : addressGuard u = true ↔ ∃ a : AgentAddress, AgentAddress.parse u = .ok a ∧ a.generation < 2 ^ 63 := by
  constructor
  · intro h
    obtain ⟨a, ha, hlt, rfl⟩ := address_of_guard h
    exact ⟨a, AgentAddress.parse_toUri ha, hlt⟩
  · intro h
    obtain ⟨a, ha, hlt⟩ := h
    rw [← AgentAddress.toUri_of_parse ha]
    exact (addressGuard_toUri (AgentAddress.nonempty_of_parse ha)).mpr hlt

theorem oneSpelling_iff (u : String) : OneSpelling u ↔ Representable u := by
  constructor
  · intro h a ha
    obtain ⟨b, hb, hlt⟩ := guarded_iff.mp (h.guarded.mpr ⟨a, ha⟩)
    rw [ha] at hb
    exact Except.ok.inj hb ▸ hlt
  · intro h
    constructor
    case parses   => exact fun a ha he => he ▸ AgentAddress.parse_toUri ha
    case spelled  => exact fun a => AgentAddress.toUri_of_parse
    case distinct => exact fun a b ha hb he hf => AgentAddress.toUri_injective ha hb (he.trans hf.symm)
    case guarded  =>
      rw [guarded_iff]
      exact exists_congr fun a => and_iff_left_of_imp (h a)

theorem not_oneSpelling : ¬∀ u, OneSpelling u := by
  intro h
  let a : AgentAddress := ⟨"p", "a", 2 ^ 63⟩
  have hp := (h a.toUri).parses a ⟨by decide, by decide, by decide⟩ rfl
  exact absurd ((oneSpelling_iff _).mp (h a.toUri) a hp) (by decide)

end Guard
end Mail
