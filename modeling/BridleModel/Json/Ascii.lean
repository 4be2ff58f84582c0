import BridleModel.Json.Canonical

open Python

namespace Json

section Text

def hexFour (n : Nat) : List Char :=
  [hexDigit (n / 4096), hexDigit (n / 256 % 16), hexDigit (n / 16 % 16), hexDigit (n % 16)]

-- The escapes of `json.dumps` with the default `ensure_ascii=True`
def escapeAscii (c : Char) : List Char :=
  let n := c.toNat
  if n < 0x7f then escape c
  else if n < 0x10000 then '\\' :: 'u' :: hexFour n
  else '\\' :: 'u' :: (hexFour (0xd800 + (n - 0x10000) / 0x400) ++
    '\\' :: 'u' :: hexFour (0xdc00 + (n - 0x10000) % 0x400))

-- The scalars of a list that `dumpsAscii` writes
inductive Scalar
  | num (n : Int)
  | str (s : String)
deriving DecidableEq, Repr

def Scalar.json : Scalar → Json
  | num n => .num n
  | str s => .str s

def Scalar.text : Scalar → List Char
  | num n => (toString n).toList
  | str s => '"' :: (s.toList.flatMap escapeAscii ++ ['"'])

-- `json.dumps(values, separators=(",", ":"))`
def dumpsAscii (values : List Scalar) : String :=
  String.ofList <| '[' :: ([','].intercalate (values.map Scalar.text) ++ [']'])

end Text

section RoundTrip

variable {c : Char} {cs rest : List Char} {n fuel : Nat}

theorem readHex_hexFour (h : n < 0x10000) : readHex (hexFour n ++ rest) = some (n, rest) := by
  have h₀ := hexValue_hexDigit (show n / 4096 < 16 by omega)
  have h₁ := hexValue_hexDigit (show n / 256 % 16 < 16 by omega)
  have h₂ := hexValue_hexDigit (show n / 16 % 16 < 16 by omega)
  have h₃ := hexValue_hexDigit (show n % 16 < 16 by omega)
  simp only [hexFour, List.cons_append, List.nil_append, readHex, h₀, h₁, h₂, h₃]
  congr
  omega

theorem readChar_unicode : readChar ('\\' :: 'u' :: cs) = readUnicode cs :=
  rfl

theorem readUnicode_pair {high low : Nat} (hh : 0xd800 ≤ high ∧ high ≤ 0xdbff)
    (hl : 0xdc00 ≤ low ∧ low ≤ 0xdfff) :
    readUnicode (hexFour high ++ '\\' :: 'u' :: (hexFour low ++ rest)) =
      some (Char.ofNat (0x10000 + (high - 0xd800) * 0x400 + (low - 0xdc00)), rest) := by
  simp only [readUnicode, readHex_hexFour (show high < 0x10000 by omega)]
  rw [if_pos hh]
  simp only [readHex_hexFour (show low < 0x10000 by omega)]
  rw [if_pos hl]

theorem readChar_escapeAscii : readChar (escapeAscii c ++ rest) = some (c, rest) := by
  have hv : c.toNat < 0xd800 ∨ (0xdfff < c.toNat ∧ c.toNat < 0x110000) := c.valid
  unfold escapeAscii
  dsimp only
  split
  case isTrue  => exact readChar_escape
  case isFalse =>
    split
    case isTrue h  =>
      rw [List.cons_append, List.cons_append, readChar_unicode, readUnicode, readHex_hexFour h]
      simp only [Char.ofNat_toNat]
      rw [if_neg (by omega), if_neg (by omega)]
    case isFalse h =>
      have hp : 0x10000 + (0xd800 + (c.toNat - 0x10000) / 0x400 - 0xd800) * 0x400 +
          (0xdc00 + (c.toNat - 0x10000) % 0x400 - 0xdc00) = c.toNat := by
        omega
      rw [List.cons_append, List.cons_append, List.append_assoc, readChar_unicode, List.cons_append,
        List.cons_append, readUnicode_pair (by omega) (by omega), hp, Char.ofNat_toNat]

theorem escapeAscii_ne_quote : escapeAscii c ++ rest ≠ '"' :: cs := by
  unfold escapeAscii
  dsimp only
  split_ifs
  case pos => exact escape_ne_quote
  all_goals simp

theorem scanString_escapeAscii (h : cs.length < fuel) :
    scanString fuel (cs.flatMap escapeAscii ++ '"' :: rest) = some (cs, rest) := by
  induction cs generalizing fuel with
  | nil =>
    cases fuel with
    | zero => contradiction
    | succ => rfl
  | cons c cs hi =>
    cases fuel with
    | zero      => contradiction
    | succ fuel =>
      have hi := @hi fuel (by simpa using h)
      rw [List.flatMap_cons, List.append_assoc]
      unfold scanString
      split
      case h_2 heq => exact absurd heq escapeAscii_ne_quote
      case h_1 heq   => cases heq
      case h_3 heq _ =>
        cases heq
        rw [readChar_escapeAscii]
        simp only [hi]
        rfl

theorem length_le_flatMap_escapeAscii : cs.length ≤ (cs.flatMap escapeAscii).length := by
  induction cs with
  | nil          => exact Nat.le_refl _
  | cons c cs hi =>
    have hc : escapeAscii c ≠ [] := fun he =>
      @escapeAscii_ne_quote c [] ['"'] (by rw [he]; rfl)
    have hl := List.length_pos_iff.mpr hc
    simp only [List.length_cons, List.flatMap_cons, List.length_append]
    omega

variable {v : Scalar} {vs : List Scalar}

def scalarsText (vs : List Scalar) : List Char :=
  [','].intercalate (vs.map Scalar.text)

theorem scanValue_text (hr : Ends rest) (hf : v.text.length ≤ fuel) :
    scanValue (fuel + 1) (v.text ++ rest) = some (v.json, rest) := by
  cases v with
  | num n =>
    have ⟨c, cs, he, hc⟩ := number_head (k := n)
    have hs := scanNumber_toString (k := n) hr
    rw [he, List.cons_append] at hs
    rw [Scalar.text, he, List.cons_append, scanValue_number hc, hs]
    rfl
  | str s =>
    have hl := @length_le_flatMap_escapeAscii s.toList
    simp only [Scalar.text, List.length_cons, List.length_append, List.length_nil] at hf
    rw [Scalar.text, List.cons_append, List.append_assoc, scanValue]
    simp only [List.singleton_append]
    rw [scanString_escapeAscii (by omega)]
    simp [Scalar.json]

theorem text_head : ∃ c cs, v.text = c :: cs ∧ isSpace c = false ∧ c ≠ ']' := by
  cases v with
  | str s => exact ⟨'"', _, rfl, by decide, by decide⟩
  | num n => exact dumps_head (v := .num n)

theorem skip_text : skip (v.text ++ rest) = v.text ++ rest := by
  have ⟨c, cs, hd, hc, _⟩ := text_head (v := v)
  rw [hd, List.cons_append, skip, List.dropWhile_cons_of_neg (by simp [hc])]

theorem scalarsText_cons {w : Scalar} :
    scalarsText (v :: w :: vs) = v.text ++ ',' :: scalarsText (w :: vs) := by
  simp [scalarsText, List.intercalate]

theorem scalarsText_singleton : scalarsText [v] = v.text := by
  simp [scalarsText, List.intercalate]

theorem skip_scalarsText : skip (scalarsText (v :: vs) ++ rest) = scalarsText (v :: vs) ++ rest := by
  cases vs with
  | nil      => rw [scalarsText_singleton, skip_text]
  | cons w _ => rw [scalarsText_cons, List.append_assoc, skip_text]

theorem scanItems_text (hf : (scalarsText (v :: vs)).length + 1 < fuel) :
    scanItems fuel (scalarsText (v :: vs) ++ ']' :: rest) = some ((v :: vs).map Scalar.json, rest) := by
  induction vs generalizing v fuel with
  | nil          =>
    obtain ⟨fuel, rfl⟩ : ∃ n, fuel = n + 2 := ⟨fuel - 2, by omega⟩
    rw [scalarsText_singleton] at hf
    rw [scanItems, scalarsText_singleton, scanValue_text ends_bracket (by omega)]
    rfl
  | cons w vs hi =>
    obtain ⟨fuel, rfl⟩ : ∃ n, fuel = n + 2 := ⟨fuel - 2, by omega⟩
    rw [scalarsText_cons] at hf
    simp only [List.length_append, List.length_cons] at hf
    rw [scanItems, scalarsText_cons, List.append_assoc, List.cons_append,
      scanValue_text ends_comma (by omega)]
    simp only [show ∀ cs, skip (',' :: cs) = ',' :: cs from fun _ => rfl, skip_scalarsText]
    rw [hi (by omega)]
    rfl

theorem scanValue_scalars : scanValue (fuel + 1) ('[' :: (scalarsText (v :: vs) ++ rest)) =
    (scanItems fuel (scalarsText (v :: vs) ++ rest)).map fun (items, cs) => (arr items, cs) := by
  have hne {cs : List Char} : scalarsText (v :: vs) ++ rest ≠ ']' :: cs := by
    have ⟨c, cs', hd, _, hc⟩ := text_head (v := v)
    intro h
    cases vs with
    | nil      => rw [scalarsText_singleton, hd] at h; cases h; contradiction
    | cons w _ => rw [scalarsText_cons, hd] at h; cases h; contradiction
  rw [scanValue, skip_scalarsText]
  split
  case h_1 heq => exact absurd heq hne
  case h_2     => rfl

-- The round trip of a list of scalars that is not empty
theorem loads_dumpsAscii : loads (dumpsAscii (v :: vs)) = some (arr ((v :: vs).map Scalar.json)) := by
  have hd : dict (arr ((v :: vs).map Scalar.json)) = arr ((v :: vs).map Scalar.json) := by
    refine dict_of_distinct (v := arr _) ?_
    change DistinctItems _
    induction v :: vs with
    | nil          => trivial
    | cons w ws hi => cases w <;> exact ⟨trivial, hi⟩
  have hs : scan (dumpsAscii (v :: vs)) = some (arr ((v :: vs).map Scalar.json)) := by
    have hl : (dumpsAscii (v :: vs)).toList = '[' :: (scalarsText (v :: vs) ++ [']']) := by
      rw [dumpsAscii, String.toList_ofList]
      rfl
    have hk {cs : List Char} : skip ('[' :: cs) = '[' :: cs := rfl
    rw [scan, hl, hk, List.length_cons, Nat.mul_succ, scanValue_scalars,
      scanItems_text (by simp only [List.length_append, List.length_singleton]; omega)]
    rfl
  rw [loads, hs, Option.map_some, hd]

end RoundTrip
end Json
