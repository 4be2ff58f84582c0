import Mathlib.Tactic.IntervalCases
import BridleModel.Json.Scan
import BridleModel.Library.Assoc

open Python

namespace Json

section Canonical

-- The order of `sort_keys=True`.
def byKey (a b : String × Json) : Prop :=
  a.fst ≤ b.fst

instance : DecidableRel byKey :=
  fun a b => inferInstanceAs (Decidable (a.fst ≤ b.fst))

mutual

-- The same value with the fields of every object in the order of their keys.
def canonical : Json → Json
  | arr items  => arr (canonicalItems items)
  | obj fields => obj ((canonicalFields fields).insertionSort byKey)
  | null       => null
  | bool b     => bool b
  | num n      => num n
  | str s      => str s

def canonicalItems : List Json → List Json
  | []       => []
  | hd :: tl => canonical hd :: canonicalItems tl

def canonicalFields : List (String × Json) → List (String × Json)
  | []              => []
  | (key, hd) :: tl => (key, canonical hd) :: canonicalFields tl

end

variable {items : List Json} {fields : List (String × Json)}

theorem canonicalItems_eq_map : canonicalItems items = items.map canonical := by
  induction items with
  | nil           => rfl
  | cons hd tl hi => rw [canonicalItems, hi, List.map_cons]

theorem canonicalFields_eq_map : canonicalFields fields = fields.map fun f => (f.fst, canonical f.snd) := by
  induction fields with
  | nil           => rfl
  | cons hd tl hi => rw [canonicalFields, hi, List.map_cons]

theorem dumpsItems_eq_map : dumpsItems items = items.map dumps := by
  induction items with
  | nil           => rfl
  | cons hd tl hi => rw [dumpsItems, hi, List.map_cons]

theorem dumpsFields_eq_map : dumpsFields fields = fields.map fun f => (f.fst, dumps f.snd) := by
  induction fields with
  | nil           => rfl
  | cons hd tl hi => rw [dumpsFields, hi, List.map_cons]

theorem insertionSort_map {β : Type} {g : Json → β} :
    (fields.map fun f => (f.fst, g f.snd)).insertionSort (fun a b => a.fst ≤ b.fst) =
      (fields.insertionSort byKey).map fun f => (f.fst, g f.snd) := by
  refine (List.map_insertionSort byKey _ (fun f => (f.fst, g f.snd)) fields ?_).symm
  exact fun _ _ _ _ => .rfl

theorem canonical_obj : canonical (obj fields) =
    obj ((fields.insertionSort byKey).map fun f => (f.fst, canonical f.snd)) := by
  rw [canonical, canonicalFields_eq_map]
  exact congrArg obj insertionSort_map

-- The text of one field.
def field (f : String × Json) : String :=
  quote f.fst ++ ":" ++ dumps f.snd

theorem joined_dumpsFields : joined (dumpsFields fields) = (fields.insertionSort byKey).map field := by
  rw [joined, dumpsFields_eq_map, insertionSort_map, List.map_map]
  rfl

theorem dumps_arr : dumps (arr items) = "[" ++ ",".intercalate (items.map dumps) ++ "]" := by
  rw [dumps, dumpsItems_eq_map]

theorem dumps_obj : dumps (obj fields) =
    "\x7b" ++ ",".intercalate ((fields.insertionSort byKey).map field) ++ "\x7d" := by
  rw [dumps, joined_dumpsFields]

end Canonical

section Strings

variable {c : Char} {cs rest : List Char} {n fuel : Nat}

theorem hexValue_hexDigit (h : n < 16) : hexValue (hexDigit n) = some n := by
  interval_cases n <;> decide

theorem readHex_control (h : n < 0x20) :
    readHex ('0' :: '0' :: hexDigit (n / 16) :: hexDigit (n % 16) :: rest) = some (n, rest) := by
  have h₀ : hexValue '0' = some 0 := by decide
  have h₁ : hexValue (hexDigit (n / 16)) = some (n / 16) := hexValue_hexDigit (by omega)
  have h₂ : hexValue (hexDigit (n % 16)) = some (n % 16) := hexValue_hexDigit (by omega)
  simp only [readHex, h₀, h₁, h₂]
  congr
  omega

theorem readChar_escape : readChar (escape c ++ rest) = some (c, rest) := by
  unfold escape
  split_ifs with h₁ h₂ h₃ h₄ h₅ h₆ h₇ h₈
  case pos => subst h₁; rfl
  case pos => subst h₂; rfl
  case pos => subst h₃; rfl
  case pos => subst h₄; rfl
  case pos => subst h₅; rfl
  case pos =>
    rw [← Char.ofNat_toNat c, h₆]
    rfl
  case pos =>
    rw [← Char.ofNat_toNat c, h₇]
    rfl
  case pos =>
    change readUnicode ('0' :: '0' :: hexDigit (c.toNat / 16) :: hexDigit (c.toNat % 16) :: rest) = _
    simp only [readUnicode, readHex_control h₈, Char.ofNat_toNat]
    rw [if_neg (by omega), if_neg (by omega)]
  case neg =>
    have hc : readChar (c :: rest) = if c.toNat < 0x20 then none else some (c, rest) := by
      unfold readChar
      split <;> simp_all
    rw [List.singleton_append, hc, if_neg h₈]

theorem escape_ne_quote : escape c ++ rest ≠ '"' :: cs := by
  unfold escape
  split_ifs <;> simp_all

theorem scanString_escape (h : cs.length < fuel) :
    scanString fuel (cs.flatMap escape ++ '"' :: rest) = some (cs, rest) := by
  induction cs generalizing fuel with
  | nil =>
    cases fuel with
    | zero => contradiction
    | succ => rfl
  | cons c cs hi =>
    cases fuel with
    | zero      => contradiction
    | succ fuel =>
      have hi := @hi fuel (by simpa using h)
      rw [List.flatMap_cons, List.append_assoc]
      unfold scanString
      split
      case h_2 heq => exact absurd heq escape_ne_quote
      case h_1 heq   => cases heq
      case h_3 heq _ =>
        cases heq
        rw [readChar_escape]
        simp only [hi]
        rfl

theorem toList_quote {s : String} : (quote s).toList = '"' :: (s.toList.flatMap escape ++ ['"']) := by
  simp [quote]

theorem length_le_flatMap_escape : cs.length ≤ (cs.flatMap escape).length := by
  induction cs with
  | nil          => exact Nat.le_refl _
  | cons c cs hi =>
    have hc : 1 ≤ (escape c).length := by
      unfold escape
      split_ifs <;> simp
    simp only [List.length_cons, List.flatMap_cons, List.length_append]
    omega

end Strings

section Numbers

variable {n : Nat} {rest : List Char}

-- The text behind a value inside of an array or an object.
def Ends (rest : List Char) : Prop :=
  ∀ c, rest.head? = some c → c = ',' ∨ c = ']' ∨ c = '\x7d'

theorem Ends.not_digit (h : Ends rest) : rest.takeWhile (·.isDigit) = [] := by
  cases rest with
  | nil      => rfl
  | cons c _ =>
    have hc : c.isDigit = false := by
      obtain rfl | rfl | rfl := h c rfl <;> decide
    simp [hc]

theorem Ends.dropWhile_digit (h : Ends rest) : rest.dropWhile (·.isDigit) = rest := by
  have := List.takeWhile_append_dropWhile (p := (·.isDigit)) (l := rest)
  rwa [h.not_digit] at this

theorem Ends.integral (h : Ends rest) :
    ¬(rest.head? = some '.' ∨ rest.head? = some 'e' ∨ rest.head? = some 'E') := by
  rintro (hc | hc | hc) <;> simpa using h _ hc

theorem toDigits_head (h : (Nat.toDigits 10 n).head? = some '0') : n = 0 := by
  induction n using Nat.strongRecOn with
  | ind n hi =>
    by_cases hn : n < 10
    case pos =>
      rw [Nat.toDigits_of_lt_base hn] at h
      interval_cases n <;> first | rfl | simp [Nat.digitChar] at h
    case neg =>
      rw [Nat.toDigits_of_base_le (by decide) (by omega)] at h
      rw [List.head?_append_of_ne_nil _ Nat.toDigits_ne_nil] at h
      have := hi (n / 10) (by omega) h
      omega

theorem isDigit_toDigits : ∀ c ∈ Nat.toDigits 10 n, c.isDigit = true :=
  fun _ hc => Nat.isDigit_of_mem_toDigits (by decide) (by decide) hc

theorem scanNat_toDigits (h : Ends rest) : scanNat (Nat.toDigits 10 n ++ rest) = some (n, rest) := by
  have ht : (Nat.toDigits 10 n ++ rest).takeWhile (·.isDigit) = Nat.toDigits 10 n := by
    rw [List.takeWhile_append_of_pos isDigit_toDigits, h.not_digit, List.append_nil]
  have hd : (Nat.toDigits 10 n ++ rest).dropWhile (·.isDigit) = rest := by
    rw [List.dropWhile_append_of_pos isDigit_toDigits, h.dropWhile_digit]
  have hz : ¬(Nat.toDigits 10 n = [] ∨
      ((Nat.toDigits 10 n).head? = some '0' ∧ Nat.toDigits 10 n ≠ ['0'])) := by
    rintro (hn | ⟨hh, hn⟩)
    · exact Nat.toDigits_ne_nil hn
    · exact hn (toDigits_head hh ▸ Nat.toDigits_zero 10)
  simp only [scanNat, ht, hd]
  rw [if_neg hz, if_neg h.integral, Nat.ofDigitChars_ten_toDigits]

theorem toList_nonneg : (toString (Int.ofNat n)).toList = Nat.toDigits 10 n :=
  Nat.toList_repr

theorem toList_neg : (toString (Int.negSucc n)).toList = '-' :: Nat.toDigits 10 (n + 1) := by
  change ("-" ++ (n + 1).repr).toList = _
  rw [String.toList_append, Nat.toList_repr]
  rfl

theorem toDigits_cons : ∃ c cs, Nat.toDigits 10 n = c :: cs ∧ c.isDigit = true := by
  cases h : Nat.toDigits 10 n with
  | nil       => exact absurd h Nat.toDigits_ne_nil
  | cons c cs => exact ⟨c, cs, rfl, isDigit_toDigits c (h ▸ List.mem_cons_self)⟩

theorem scanNumber_toString {k : Int} (h : Ends rest) :
    scanNumber ((toString k).toList ++ rest) = some (num k, rest) := by
  cases k with
  | negSucc n =>
    rw [toList_neg, List.cons_append, scanNumber, scanNat_toDigits h]
    rfl
  | ofNat n =>
    rw [toList_nonneg]
    unfold scanNumber
    split
    case h_1 cs hcs =>
      have ⟨c, ds, hd, hc⟩ := toDigits_cons (n := n)
      rw [hd, List.cons_append] at hcs
      cases hcs
      cases hc
    case h_2 =>
      rw [scanNat_toDigits h]
      rfl

-- A number begins with a digit or a sign.
theorem number_head {k : Int} :
    ∃ c cs, (toString k).toList = c :: cs ∧ (c.isDigit = true ∨ c = '-') := by
  cases k with
  | negSucc n => exact ⟨'-', _, toList_neg, .inr rfl⟩
  | ofNat n   =>
    have ⟨c, cs, hd, hc⟩ := toDigits_cons (n := n)
    exact ⟨c, cs, toList_nonneg.trans hd, .inl hc⟩

theorem scanValue_number {c : Char} {cs : List Char} {fuel : Nat} (h : c.isDigit = true ∨ c = '-') :
    scanValue (fuel + 1) (c :: cs) = scanNumber (c :: cs) := by
  unfold scanValue
  split
  case h_1 heq => cases heq
  case h_8     => rfl
  all_goals
    rename_i heq
    cases heq
    cases h <;> contradiction

end Numbers

section RoundTrip

variable {v w : Json} {vs : List Json} {f g : String × Json} {fs : List (String × Json)}
  {rest : List Char} {fuel : Nat}

def itemsText (vs : List Json) : List Char :=
  (",".intercalate (vs.map dumps)).toList

def fieldsText (fs : List (String × Json)) : List Char :=
  (",".intercalate (fs.map field)).toList

theorem itemsText_singleton : itemsText [v] = (dumps v).toList := by
  simp [itemsText]

theorem itemsText_cons : itemsText (v :: w :: vs) = (dumps v).toList ++ ',' :: itemsText (w :: vs) := by
  simp [itemsText, String.intercalate_cons_cons]

theorem toList_field : (field f).toList = '"' :: (f.fst.toList.flatMap escape ++ '"' :: ':' :: (dumps f.snd).toList) := by
  simp [field, toList_quote]

theorem fieldsText_singleton : fieldsText [f] = (field f).toList := by
  simp [fieldsText]

theorem fieldsText_cons : fieldsText (f :: g :: fs) = (field f).toList ++ ',' :: fieldsText (g :: fs) := by
  simp [fieldsText, String.intercalate_cons_cons]

theorem toList_arr : (dumps (arr vs)).toList = '[' :: (itemsText vs ++ [']']) := by
  simp [dumps_arr, itemsText]

theorem toList_obj : (dumps (obj fs)).toList =
    '\x7b' :: (fieldsText (fs.insertionSort byKey) ++ ['\x7d']) := by
  simp [dumps_obj, fieldsText]

theorem dumps_head : ∃ c cs, (dumps v).toList = c :: cs ∧ isSpace c = false ∧ c ≠ ']' := by
  cases v with
  | null   => exact ⟨'n', _, rfl, rfl, by decide⟩
  | bool b => cases b <;> exact ⟨_, _, rfl, by decide, by decide⟩
  | str s  => exact ⟨'"', _, toList_quote, by decide, by decide⟩
  | arr vs => exact ⟨'[', _, toList_arr, by decide, by decide⟩
  | obj fs => exact ⟨'\x7b', _, toList_obj, by decide, by decide⟩
  | num k  =>
    have ⟨c, cs, hc, hd⟩ := number_head (k := k)
    refine ⟨c, cs, hc, ?_, ?_⟩
    · cases hs : isSpace c with
      | false => rfl
      | true  =>
        simp only [isSpace, decide_eq_true_eq] at hs
        obtain rfl | rfl | rfl | rfl := hs <;> cases hd <;> contradiction
    · rintro rfl
      cases hd <;> contradiction

theorem skip_dumps : skip ((dumps v).toList ++ rest) = (dumps v).toList ++ rest := by
  have ⟨c, cs, hd, hc, _⟩ := dumps_head (v := v)
  rw [hd, List.cons_append, skip, List.dropWhile_cons_of_neg (by simp [hc])]

theorem skip_itemsText : skip (itemsText (v :: vs) ++ rest) = itemsText (v :: vs) ++ rest := by
  cases vs with
  | nil      => rw [itemsText_singleton, skip_dumps]
  | cons w _ => rw [itemsText_cons, List.append_assoc, skip_dumps]

theorem fieldsText_head : ∃ cs, fieldsText (f :: fs) = '"' :: cs := by
  cases fs with
  | nil      => exact ⟨_, fieldsText_singleton.trans toList_field⟩
  | cons g _ => rw [fieldsText_cons, toList_field]; exact ⟨_, List.cons_append ..⟩

theorem skip_fieldsText : skip (fieldsText (f :: fs) ++ rest) = fieldsText (f :: fs) ++ rest := by
  have ⟨cs, h⟩ := @fieldsText_head f fs
  rw [h]
  rfl

-- With this much fuel the scanner reads every text that `dumps` has written.
structure Scans (fuel : Nat) : Prop where
  value : ∀ v rest, 2 * (dumps v).toList.length ≤ fuel → Ends rest →
    scanValue fuel ((dumps v).toList ++ rest) = some (canonical v, rest)
  items : ∀ v vs rest, 2 * (itemsText (v :: vs)).length < fuel →
    scanItems fuel (itemsText (v :: vs) ++ ']' :: rest) = some ((v :: vs).map canonical, rest)
  fields : ∀ f fs rest, 2 * (fieldsText (f :: fs)).length < fuel →
    scanFields fuel (fieldsText (f :: fs) ++ '\x7d' :: rest) =
      some ((f :: fs).map (fun f => (f.fst, canonical f.snd)), rest)

theorem ends_comma : Ends (',' :: rest) := by
  rintro _ ⟨⟩
  exact .inl rfl

theorem ends_bracket : Ends (']' :: rest) := by
  rintro _ ⟨⟩
  exact .inr <| .inl rfl

theorem ends_brace : Ends ('\x7d' :: rest) := by
  rintro _ ⟨⟩
  exact .inr <| .inr rfl

theorem Scans.items_succ (h : Scans fuel) (hl : 2 * (itemsText (v :: vs)).length < fuel + 1) :
    scanItems (fuel + 1) (itemsText (v :: vs) ++ ']' :: rest) =
      some ((v :: vs).map canonical, rest) := by
  cases vs with
  | nil      =>
    rw [itemsText_singleton] at hl ⊢
    rw [scanItems, h.value v _ (by omega) ends_bracket]
    rfl
  | cons w vs =>
    rw [itemsText_cons] at hl ⊢
    simp only [List.length_append, List.length_cons] at hl
    rw [List.append_assoc, List.cons_append, scanItems, h.value v _ (by omega) ends_comma]
    change (scanItems fuel (skip (itemsText (w :: vs) ++ ']' :: rest))).map _ = _
    rw [skip_itemsText, h.items w vs rest (by omega)]
    rfl

theorem length_field : (f.fst.toList.flatMap escape).length + (dumps f.snd).toList.length + 3 =
    (field f).toList.length := by
  rw [toList_field]
  simp only [List.length_cons, List.length_append]
  omega

-- The text of a field up to its colon, then its value.
theorem scanFields_field {cs : List Char} (h : (f.fst.toList.flatMap escape).length < fuel) :
    scanFields (fuel + 1) ((field f).toList ++ cs) =
      match scanValue fuel ((dumps f.snd).toList ++ cs) with
      | none             => none
      | some (value, cs) =>
        match skip cs with
        | '\x7d' :: cs => some ([(f.fst, value)], cs)
        | ',' :: cs    =>
          (scanFields fuel (skip cs)).map fun (fields, cs) => ((f.fst, value) :: fields, cs)
        | _            => none := by
  have hs := @scanString_escape _ (':' :: ((dumps f.snd).toList ++ cs)) _
    (Nat.lt_of_le_of_lt length_le_flatMap_escape h)
  have hc : skip (':' :: ((dumps f.snd).toList ++ cs)) = ':' :: ((dumps f.snd).toList ++ cs) := rfl
  rw [toList_field, List.cons_append, List.append_assoc, List.cons_append, List.cons_append, scanFields]
  simp only [hs, hc, skip_dumps, String.ofList_toList] <;> rfl

theorem Scans.fields_succ (h : Scans fuel) (hl : 2 * (fieldsText (f :: fs)).length < fuel + 1) :
    scanFields (fuel + 1) (fieldsText (f :: fs) ++ '\x7d' :: rest) =
      some ((f :: fs).map (fun f => (f.fst, canonical f.snd)), rest) := by
  have hf := length_field (f := f)
  cases fs with
  | nil      =>
    rw [fieldsText_singleton] at hl ⊢
    rw [scanFields_field (by omega), h.value f.snd _ (by omega) ends_brace]
    rfl
  | cons g fs =>
    rw [fieldsText_cons] at hl ⊢
    simp only [List.length_append, List.length_cons] at hl
    rw [List.append_assoc, List.cons_append, scanFields_field (by omega),
      h.value f.snd _ (by omega) ends_comma]
    change (scanFields fuel (skip (fieldsText (g :: fs) ++ '\x7d' :: rest))).map _ = _
    rw [skip_fieldsText, h.fields g fs rest (by omega)]
    rfl

theorem scanValue_arr : scanValue (fuel + 1) ('[' :: (itemsText (v :: vs) ++ rest)) =
    (scanItems fuel (itemsText (v :: vs) ++ rest)).map fun (items, cs) => (arr items, cs) := by
  have hne {cs : List Char} : itemsText (v :: vs) ++ rest ≠ ']' :: cs := by
    have ⟨c, cs', hd, _, hc⟩ := dumps_head (v := v)
    intro h
    cases vs with
    | nil      => rw [itemsText_singleton, hd] at h; cases h; contradiction
    | cons w _ => rw [itemsText_cons, hd] at h; cases h; contradiction
  rw [scanValue, skip_itemsText]
  split
  case h_1 heq => exact absurd heq hne
  case h_2     => rfl

theorem scanValue_obj : scanValue (fuel + 1) ('\x7b' :: (fieldsText (f :: fs) ++ rest)) =
    (scanFields fuel (fieldsText (f :: fs) ++ rest)).map fun (fields, cs) => (obj fields, cs) := by
  have ⟨cs, hd⟩ := @fieldsText_head f fs
  rw [scanValue, skip_fieldsText, hd]
  rfl

theorem Scans.value_succ (h : Scans fuel) (hl : 2 * (dumps v).toList.length ≤ fuel + 1)
    (he : Ends rest) :
    scanValue (fuel + 1) ((dumps v).toList ++ rest) = some (canonical v, rest) := by
  cases v with
  | null   => rfl
  | bool b => cases b <;> rfl
  | num k  =>
    have ⟨c, cs, hc, hd⟩ := number_head (k := k)
    have hn := scanNumber_toString (k := k) he
    rw [dumps]
    rw [hc, List.cons_append] at hn ⊢
    rw [scanValue_number hd, hn]
    rfl
  | str s  =>
    have hs := toList_quote (s := s)
    have hl' := congrArg List.length hs
    have hle := @length_le_flatMap_escape s.toList
    simp only [List.length_cons, List.length_append] at hl'
    rw [dumps] at hl ⊢
    rw [hs, List.cons_append, List.append_assoc, List.singleton_append, scanValue,
      scanString_escape (by omega)]
    simp [canonical]
  | arr vs =>
    rw [toList_arr] at hl ⊢
    simp only [List.length_cons, List.length_append] at hl
    rw [List.cons_append, List.append_assoc, List.singleton_append, canonical, canonicalItems_eq_map]
    cases vs with
    | nil       => rfl
    | cons v vs =>
      rw [scanValue_arr, h.items v vs rest (by omega)]
      rfl
  | obj fs =>
    rw [toList_obj] at hl ⊢
    rw [List.cons_append, List.append_assoc, List.singleton_append, canonical_obj]
    simp only [List.length_cons, List.length_append] at hl
    cases hfs : fs.insertionSort byKey with
    | nil       => rfl
    | cons f fs =>
      rw [hfs] at hl
      rw [scanValue_obj, h.fields f fs rest (by omega)]
      rfl

theorem scans : Scans fuel := by
  induction fuel with
  | zero =>
    refine ⟨fun v rest hl _ => ?_, fun _ _ _ hl => by omega, fun _ _ _ hl => by omega⟩
    have ⟨c, cs, hd, _⟩ := dumps_head (v := v)
    rw [hd] at hl
    simp at hl
  | succ fuel h =>
    exact ⟨fun _ _ => h.value_succ, fun _ _ _ => h.items_succ, fun _ _ _ => h.fields_succ⟩

-- What `dumps` has written, the scanner reads back with every object in the order of its keys.
theorem scan_dumps : scan (dumps v) = some (canonical v) := by
  have hs := scans.value v [] (Nat.le_refl _) nofun
  rw [List.append_nil] at hs
  have hk := @skip_dumps v []
  rw [List.append_nil] at hk
  simp only [scan, hk, hs]
  rfl

theorem dumps_injective (h : dumps v = dumps w) : canonical v = canonical w :=
  Option.some.inj <| scan_dumps.symm.trans <| (congrArg scan h).trans scan_dumps

end RoundTrip

section Distinct

variable {v w : Json} {items : List Json} {fields : List (String × Json)} {d : Dict}

instance : Std.Total byKey :=
  ⟨fun a b => le_total a.fst b.fst⟩

instance : IsTrans (String × Json) byKey :=
  ⟨fun _ _ _ h₁ h₂ => le_trans (α := String) h₁ h₂⟩

theorem joined_insertionSort :
    joined (dumpsFields (fields.insertionSort byKey)) = joined (dumpsFields fields) := by
  rw [joined_dumpsFields, joined_dumpsFields,
    (List.pairwise_insertionSort byKey fields).insertionSort_eq]

mutual

theorem dumps_canonical : ∀ v, dumps (canonical v) = dumps v
  | arr items  => by rw [canonical, dumps, dumps, dumpsItems_canonical items]
  | obj fields => by
    rw [canonical, dumps, dumps, joined_insertionSort, dumpsFields_canonical fields]
  | null       => rfl
  | bool _     => rfl
  | num _      => rfl
  | str _      => rfl

theorem dumpsItems_canonical : ∀ items, dumpsItems (canonicalItems items) = dumpsItems items
  | []       => rfl
  | hd :: tl => by rw [canonicalItems, dumpsItems, dumpsItems, dumps_canonical hd, dumpsItems_canonical tl]

theorem dumpsFields_canonical : ∀ fields, dumpsFields (canonicalFields fields) = dumpsFields fields
  | []              => rfl
  | (key, hd) :: tl => by
    rw [canonicalFields, dumpsFields, dumpsFields, dumps_canonical hd, dumpsFields_canonical tl]

end

theorem canonical_canonical : canonical (canonical v) = canonical v :=
  dumps_injective (dumps_canonical v)

theorem dumps_eq_iff : dumps v = dumps w ↔ canonical v = canonical w :=
  ⟨dumps_injective, fun h => (dumps_canonical v).symm.trans <| (congrArg dumps h).trans (dumps_canonical w)⟩

theorem distinctFields_iff : DistinctFields fields ↔ ∀ f ∈ fields, Distinct f.snd := by
  induction fields with
  | nil           => simp [DistinctFields]
  | cons hd tl hi => simp [DistinctFields, hi]

mutual

theorem Distinct.canonical : ∀ {v}, Distinct v → Distinct (Json.canonical v)
  | arr items, h  => by
    rw [Json.canonical, Distinct]
    exact @DistinctItems.canonical items h
  | obj fields, h => by
    have ⟨hk, hf⟩ : (fields.map (·.fst)).Nodup ∧ DistinctFields fields := h
    have hp := List.perm_insertionSort byKey (canonicalFields fields)
    have he : (canonicalFields fields).map (·.fst) = fields.map (·.fst) := by
      rw [canonicalFields_eq_map, List.map_map]
      rfl
    rw [Json.canonical, Distinct]
    refine ⟨(hp.map _).nodup_iff.mpr (he ▸ hk), distinctFields_iff.mpr fun f hf' => ?_⟩
    exact distinctFields_iff.mp (@DistinctFields.canonical fields hf) f (hp.mem_iff.mp hf')
  | null, _       => trivial
  | bool _, _     => trivial
  | num _, _      => trivial
  | str _, _      => trivial

theorem DistinctItems.canonical : ∀ {items}, DistinctItems items → DistinctItems (canonicalItems items)
  | [], _      => trivial
  | _ :: _, h  => ⟨h.left.canonical, h.right.canonical⟩

theorem DistinctFields.canonical :
    ∀ {fields}, DistinctFields fields → DistinctFields (canonicalFields fields)
  | [], _          => trivial
  | (_, _) :: _, h => ⟨h.left.canonical, h.right.canonical⟩

end

theorem Dict.set_eq {key : String} {value : Json} : Dict.set d key value = Assoc.set d key value := by
  induction d with
  | nil           => rfl
  | cons hd tl hi => rw [set, Assoc.set, hi]

theorem Dict.foldl_set (h : (fields.map (·.fst)).Nodup) :
    fields.foldl (fun d field => set d field.fst field.snd) [] = fields := by
  simp only [set_eq]
  exact Assoc.dict_of_distinct h

mutual

theorem dict_of_distinct : ∀ {v}, Distinct v → dict v = v
  | arr items, h  => congrArg arr (@dictItems_of_distinct items h)
  | obj fields, h => by
    have ⟨hk, hf⟩ : (fields.map (·.fst)).Nodup ∧ DistinctFields fields := h
    rw [dict, dictFields_of_distinct hf]
    exact congrArg obj (Dict.foldl_set hk)
  | null, _       => rfl
  | bool _, _     => rfl
  | num _, _      => rfl
  | str _, _      => rfl

theorem dictItems_of_distinct : ∀ {items}, DistinctItems items → dictItems items = items
  | [], _     => rfl
  | _ :: _, h => congrArg₂ List.cons (dict_of_distinct h.left) (dictItems_of_distinct h.right)

theorem dictFields_of_distinct : ∀ {fields}, DistinctFields fields → dictFields fields = fields
  | [], _              => rfl
  | (key, _) :: _, h =>
    congrArg₂ List.cons (congrArg (key, ·) (dict_of_distinct h.left)) (dictFields_of_distinct h.right)

end

mutual

theorem distinct_dict : ∀ v, Distinct (dict v)
  | arr items  => distinctItems_dict items
  | obj fields => by
    refine ⟨?_, distinctFields_iff.mpr fun f hf => ?_⟩
    · simp only [Dict.set_eq]
      exact Assoc.nodup_dict
    · simp only [Dict.set_eq] at hf
      exact distinctFields_iff.mp (distinctFields_dict fields) f (Assoc.mem_of_mem_dict hf)
  | null       => trivial
  | bool _     => trivial
  | num _      => trivial
  | str _      => trivial

theorem distinctItems_dict : ∀ items, DistinctItems (dictItems items)
  | []       => trivial
  | hd :: tl => ⟨distinct_dict hd, distinctItems_dict tl⟩

theorem distinctFields_dict : ∀ fields, DistinctFields (dictFields fields)
  | []            => trivial
  | (_, hd) :: tl => ⟨distinct_dict hd, distinctFields_dict tl⟩

end

theorem distinct_of_loads {text : String} (h : loads text = some v) : Distinct v := by
  have ⟨w, _, hw⟩ := Option.map_eq_some_iff.mp h
  exact hw ▸ distinct_dict w

namespace Dict

variable {key : String} {value : Json}

-- The dict that comes back from the text of `d`.
def canonical (d : Dict) : Dict :=
  (canonicalFields d).insertionSort byKey

theorem perm_canonical : (canonical d).Perm (canonicalFields d) :=
  List.perm_insertionSort byKey (canonicalFields d)

theorem get_eq_some_iff (h : (d.map (·.fst)).Nodup) : d.get key = some value ↔ (key, value) ∈ d :=
  Assoc.get_eq_some_iff h

theorem get_canonical (h : (d.map (·.fst)).Nodup) :
    (canonical d).get key = (d.get key).map (·.canonical) := by
  have hk : ((canonical d).map (·.fst)).Nodup := by
    refine (perm_canonical.map _).nodup_iff.mpr ?_
    rw [canonicalFields_eq_map, List.map_map]
    exact h
  ext v
  rw [get_eq_some_iff hk, perm_canonical.mem_iff, canonicalFields_eq_map, Option.map_eq_some_iff]
  simp only [List.mem_map, Prod.mk.injEq, Prod.exists]
  constructor
  · rintro ⟨k, v', hm, rfl, rfl⟩
    exact ⟨v', (get_eq_some_iff h).mpr hm, rfl⟩
  · rintro ⟨v', hg, rfl⟩
    exact ⟨key, v', (get_eq_some_iff h).mp hg, rfl, rfl⟩

-- The order of the fields does not matter.
theorem canonical_perm {d' : Dict} (h : (d.map (·.fst)).Nodup) (hp : d'.Perm d) :
    Json.canonical (obj d') = Json.canonical (obj d) := by
  have hs : d'.insertionSort byKey = d.insertionSort byKey := by
    refine List.Perm.eq_of_pairwise ?_ (List.pairwise_insertionSort byKey d') (List.pairwise_insertionSort byKey d)
      ((List.perm_insertionSort byKey d').trans (hp.trans (List.perm_insertionSort byKey d).symm))
    intro a b ha hb hab hba
    have ha := hp.mem_iff.mp ((List.perm_insertionSort byKey d').mem_iff.mp ha)
    have hb := (List.perm_insertionSort byKey d).mem_iff.mp hb
    exact List.inj_on_of_nodup_map h ha hb (le_antisymm hab hba)
  rw [canonical_obj, canonical_obj, hs]

end Dict

-- The round trip of `json.dumps` and `json.loads`.
theorem loads_dumps (h : Distinct v) : loads (dumps v) = some (Json.canonical v) := by
  rw [loads, scan_dumps, Option.map_some, dict_of_distinct h.canonical]

end Distinct
end Json
