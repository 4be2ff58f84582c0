import BridleModel.Json.Canonical

open Python

namespace Json

section Indent

-- The line break before an item at this depth
def newline (depth : Nat) : String :=
  String.ofList ('\n' :: List.replicate (2 * depth) ' ')

-- The items stand on lines of their own; a collection without items stays on one line.
def block (opening closing : String) (depth : Nat) (items : List String) : String :=
  if items = [] then
    opening ++ closing
  else
    opening ++ newline (depth + 1) ++ ("," ++ newline (depth + 1)).intercalate items ++ newline depth ++ closing

def joinedLines (fields : List (String × String)) : List String :=
  (fields.insertionSort (·.fst ≤ ·.fst)).map fun field => quote field.fst ++ ": " ++ field.snd

mutual

-- `json.dumps(value, ensure_ascii=False, sort_keys=True, indent=2)` of a value at this depth
def dumpsIndent (depth : Nat) : Json → String
  | null       => "null"
  | bool true  => "true"
  | bool false => "false"
  | num n      => toString n
  | str s      => quote s
  | arr items  => block "[" "]" depth (dumpsIndentItems (depth + 1) items)
  | obj fields => block "\x7b" "\x7d" depth (joinedLines (dumpsIndentFields (depth + 1) fields))

def dumpsIndentItems (depth : Nat) : List Json → List String
  | []       => []
  | hd :: tl => dumpsIndent depth hd :: dumpsIndentItems depth tl

def dumpsIndentFields (depth : Nat) : List (String × Json) → List (String × String)
  | []              => []
  | (key, hd) :: tl => (key, dumpsIndent depth hd) :: dumpsIndentFields depth tl

end

example : dumpsIndent 0 (.obj [("b", .arr []), ("a", .arr [.num 1])]) =
    "\x7b\n  \"a\": [\n    1\n  ],\n  \"b\": []\n\x7d" := by
  decide

end Indent

section Compact

variable {c : Char} {cs rest : List Char} {s t s' t' : String} {v w : Json}

-- The text without the white space between its tokens; `inside` tells whether a string is open.
def compact : Bool → List Char → List Char
  | _, []                 => []
  | true, '\\' :: c :: cs => '\\' :: c :: compact true cs
  | true, c :: cs         => c :: compact (c ≠ '"') cs
  | false, c :: cs        => if isSpace c then compact false cs else c :: compact (c = '"') cs

theorem compact_space (h : isSpace c = true) : compact false (c :: cs) = compact false cs := by
  rw [compact, if_pos h]

theorem compact_plain (hs : isSpace c = false) (hq : c ≠ '"') : compact false (c :: cs) = c :: compact false cs := by
  rw [compact, hs]
  simp [hq]

theorem compact_char (hb : c ≠ '\\') (hq : c ≠ '"') : compact true (c :: cs) = c :: compact true cs := by
  rw [compact]
  · simp [hq]
  · exact fun _ _ h => absurd h hb

theorem compact_hexDigit {n : Nat} (h : n < 16) :
    compact true (hexDigit n :: cs) = hexDigit n :: compact true cs := by
  interval_cases n <;> exact compact_char (by decide) (by decide)

theorem compact_escape : compact true (escape c ++ rest) = escape c ++ compact true rest := by
  rw [escape]
  split_ifs with h₁ h₂ h₃ h₄ h₅ h₆ h₇ h₈
  iterate 7 case pos => rfl
  case pos =>
    change '\\' :: 'u' :: compact true ('0' :: '0' :: _ :: _ :: rest) = _
    rw [compact_char (by decide) (by decide), compact_char (by decide) (by decide),
      compact_hexDigit (by omega), compact_hexDigit (by omega)]
    rfl
  case neg => exact compact_char h₂ h₁

-- The text `t` is `s` without the white space between its tokens, whatever follows.
def Compacts (s t : String) : Prop :=
  ∀ rest, compact false (s.toList ++ rest) = t.toList ++ compact false rest

theorem Compacts.append (h : Compacts s t) (h' : Compacts s' t') : Compacts (s ++ s') (t ++ t') := by
  intro rest
  rw [String.toList_append, String.toList_append, List.append_assoc, List.append_assoc, h, h']

theorem Compacts.spaces (h : ∀ c ∈ s.toList, isSpace c = true) : Compacts s "" := by
  intro rest
  rw [String.toList_empty, List.nil_append]
  generalize s.toList = cs at h
  induction cs with
  | nil          => rfl
  | cons c cs hi =>
    rw [List.cons_append, compact_space (h c List.mem_cons_self)]
    exact hi fun c hc => h c (List.mem_cons_of_mem _ hc)

theorem Compacts.plain (h : ∀ c ∈ s.toList, isSpace c = false ∧ c ≠ '"') : Compacts s s := by
  intro rest
  generalize s.toList = cs at h
  induction cs with
  | nil          => rfl
  | cons c cs hi =>
    obtain ⟨hs, hq⟩ := h c List.mem_cons_self
    rw [List.cons_append, compact_plain hs hq, hi fun c hc => h c (List.mem_cons_of_mem _ hc)]
    rfl

theorem Compacts.quote {s : String} : Compacts (Json.quote s) (Json.quote s) := by
  intro rest
  have hstring : ∀ cs : List Char, compact true (cs.flatMap escape ++ '"' :: rest) =
      cs.flatMap escape ++ '"' :: compact false rest := by
    intro cs
    induction cs with
    | nil           => rfl
    | cons c cs hi => rw [List.flatMap_cons, List.append_assoc, compact_escape, hi, List.append_assoc]
  rw [toList_quote, List.cons_append, List.append_assoc, List.singleton_append]
  change '"' :: compact true _ = _
  rw [hstring, List.cons_append, List.append_assoc, List.singleton_append]

theorem Compacts.newline {depth : Nat} : Compacts (newline depth) "" := by
  refine .spaces fun c hc => ?_
  rw [Json.newline, String.toList_ofList] at hc
  cases List.mem_cons.mp hc with
  | inl h => exact h ▸ rfl
  | inr h => exact (List.eq_of_mem_replicate h) ▸ rfl

theorem Compacts.intercalate {α : Type} {f g : α → String} {depth : Nat} :
    ∀ {as : List α}, (∀ a ∈ as, Compacts (f a) (g a)) →
      Compacts (("," ++ Json.newline depth).intercalate (as.map f)) (",".intercalate (as.map g))
  | [], _            => .plain (by simp)
  | [a], h           => h a List.mem_cons_self
  | a :: b :: as, h => by
    have hsep : Compacts ("," ++ Json.newline depth) ("," ++ "") := .append (.plain (by simp [isSpace])) .newline
    have ht : Compacts (("," ++ Json.newline depth).intercalate ((b :: as).map f)) _ :=
      Compacts.intercalate fun c hc => h c (List.mem_cons_of_mem _ hc)
    have hc := ((h a List.mem_cons_self).append hsep).append ht
    rw [String.append_empty] at hc
    simpa only [List.map_cons, String.intercalate_cons_cons] using hc

theorem Compacts.toString {n : Int} : Compacts (toString n) (toString n) := by
  have hd {c : Char} (h : c.isDigit = true) : isSpace c = false ∧ c ≠ '"' := by
    refine ⟨?_, by rintro rfl; cases h⟩
    simp only [isSpace, Char.isDigit, ge_iff_le, Bool.and_eq_true, decide_eq_true_eq] at h ⊢
    simp
    refine ⟨?_, ?_, ?_, ?_⟩ <;> (rintro rfl; revert h; decide)
  refine .plain fun c hc => ?_
  cases n with
  | ofNat n   => exact hd (isDigit_toDigits c (toList_nonneg ▸ hc))
  | negSucc n =>
    rw [toList_neg] at hc
    cases List.mem_cons.mp hc with
    | inl h => exact h ▸ by decide
    | inr h => exact hd (isDigit_toDigits c h)

end Compact

section Injective

variable {v w : Json} {items : List Json} {fields : List (String × Json)} {depth : Nat}

theorem dumpsIndentItems_eq_map : dumpsIndentItems depth items = items.map (dumpsIndent depth) := by
  induction items with
  | nil           => rfl
  | cons hd tl hi => rw [dumpsIndentItems, hi, List.map_cons]

theorem dumpsIndentFields_eq_map :
    dumpsIndentFields depth fields = fields.map fun f => (f.fst, dumpsIndent depth f.snd) := by
  induction fields with
  | nil           => rfl
  | cons hd tl hi => rw [dumpsIndentFields, hi, List.map_cons]

theorem joinedLines_dumpsIndentFields : joinedLines (dumpsIndentFields depth fields) =
    (fields.insertionSort byKey).map fun f => quote f.fst ++ ": " ++ dumpsIndent depth f.snd := by
  rw [joinedLines, dumpsIndentFields_eq_map, insertionSort_map, List.map_map]
  rfl

theorem Compacts.block {α : Type} {f g : α → String} {as : List α} {opening closing : String}
    (ho : ∀ c ∈ opening.toList, isSpace c = false ∧ c ≠ '"') (hc : ∀ c ∈ closing.toList, isSpace c = false ∧ c ≠ '"')
    (h : ∀ a ∈ as, Compacts (f a) (g a)) :
    Compacts (Json.block opening closing depth (as.map f)) (opening ++ ",".intercalate (as.map g) ++ closing) := by
  rw [Json.block]
  split
  case isTrue he =>
    rw [List.map_eq_nil_iff.mp he]
    simpa using (Compacts.plain ho).append (.plain hc)
  case isFalse =>
    have hi : Compacts (("," ++ Json.newline (depth + 1)).intercalate (as.map f)) (",".intercalate (as.map g)) :=
      .intercalate h
    have hn : ∀ depth, Compacts (Json.newline depth) "" := fun _ => .newline
    have hb := ((((Compacts.plain ho).append (hn (depth + 1))).append hi).append (hn depth)).append (.plain hc)
    rwa [String.append_empty, String.append_empty] at hb

theorem Compacts.colon : Compacts ": " ":" := by
  have h : Compacts (":" ++ " ") (":" ++ "") := .append (.plain (by simp [isSpace])) (.spaces (by simp [isSpace]))
  exact h

mutual

theorem compacts_dumpsIndent : ∀ depth v, Compacts (dumpsIndent depth v) (dumps v)
  | _, null           => by rw [dumpsIndent, dumps]; exact .plain (by simp [isSpace])
  | _, bool true      => by rw [dumpsIndent, dumps]; exact .plain (by simp [isSpace])
  | _, bool false     => by rw [dumpsIndent, dumps]; exact .plain (by simp [isSpace])
  | _, num _          => by rw [dumpsIndent, dumps]; exact .toString
  | _, str _          => by rw [dumpsIndent, dumps]; exact .quote
  | depth, arr items  => by
    rw [dumpsIndent, dumpsIndentItems_eq_map, dumps_arr]
    exact .block (by simp [isSpace]) (by simp [isSpace]) (compacts_dumpsIndentItems (depth + 1) items)
  | depth, obj fields => by
    rw [dumpsIndent, joinedLines_dumpsIndentFields, dumps_obj]
    refine .block (by simp [isSpace]) (by simp [isSpace]) fun f hf => ?_
    have hv := compacts_dumpsIndentFields (depth + 1) fields f ((List.perm_insertionSort ..).mem_iff.mp hf)
    exact (Compacts.quote.append .colon).append hv

theorem compacts_dumpsIndentItems :
    ∀ depth (items : List Json), ∀ v ∈ items, Compacts (dumpsIndent depth v) (dumps v)
  | _, [], _, h           => absurd h List.not_mem_nil
  | depth, hd :: tl, v, h => by
    cases List.mem_cons.mp h with
    | inl h => exact h ▸ compacts_dumpsIndent depth hd
    | inr h => exact compacts_dumpsIndentItems depth tl v h

theorem compacts_dumpsIndentFields :
    ∀ depth (fields : List (String × Json)), ∀ f ∈ fields, Compacts (dumpsIndent depth f.snd) (dumps f.snd)
  | _, [], _, h           => absurd h List.not_mem_nil
  | depth, (key, hd) :: tl, f, h => by
    cases List.mem_cons.mp h with
    | inl h => exact h ▸ compacts_dumpsIndent depth hd
    | inr h => exact compacts_dumpsIndentFields depth tl f h

end

theorem dumpsIndent_injective (h : dumpsIndent depth v = dumpsIndent depth w) : canonical v = canonical w := by
  have hv := compacts_dumpsIndent depth v []
  have hw := compacts_dumpsIndent depth w []
  rw [h, hw] at hv
  exact dumps_injective (String.toList_injective (by simpa [compact] using hv.symm))

end Injective
end Json
