import BridleModel.Python.Text

namespace Python

section Splitlines

-- The characters at which `str.splitlines` ends a line
def isLineBreak (c : Char) : Bool :=
  let n := c.toNat
  (0x0a ≤ n ∧ n ≤ 0x0d) ∨ (0x1c ≤ n ∧ n ≤ 0x1e) ∨ n = 0x85 ∨ n = 0x2028 ∨ n = 0x2029

-- `str.splitlines(keepends=True)`
def splitlinesKeepends : List Char → List (List Char)
  | []                 => []
  | '\r' :: '\n' :: cs => ['\r', '\n'] :: splitlinesKeepends cs
  | c :: cs            =>
    if isLineBreak c then
      [c] :: splitlinesKeepends cs
    else
      match splitlinesKeepends cs with
      | []      => [[c]]
      | l :: ls => (c :: l) :: ls

-- `str.splitlines()`
def splitlines (text : List Char) : List (List Char) :=
  (splitlinesKeepends text).map (·.takeWhile (!isLineBreak ·))

example : splitlines "a\r\nb\n\nc".toList = ["a".toList, "b".toList, [], "c".toList] := by decide

-- `str.strip` and `str.rstrip("\r\n")` of a list of characters
def stripChars (text : List Char) : List Char :=
  (text.dropWhile isSpace).rdropWhile isSpace

def rstripEnds (line : List Char) : List Char :=
  line.rdropWhile fun c => c = '\r' ∨ c = '\n'

end Splitlines

section Theorems

variable {c : Char} {cs line text : List Char} {lines : List (List Char)}

@[simp]
theorem isLineBreak_newline : isLineBreak '\n' = true := by
  decide

-- Nothing of the text is lost.
theorem flatten_splitlinesKeepends : (splitlinesKeepends text).flatten = text := by
  fun_induction splitlinesKeepends text with
  | case1                    => rfl
  | case2 cs hi              => simp [hi]
  | case3 c cs _ _ hi        => simp [hi]
  | case4 c cs _ _ he hi     => simpa [he] using hi
  | case5 c cs _ _ l ls he hi =>
    rw [he] at hi
    simp only [List.flatten_cons] at hi ⊢
    rw [List.cons_append, hi]

-- A text without any of these characters
def Unbroken (line : List Char) : Prop :=
  ∀ c ∈ line, isLineBreak c = false

instance : Decidable (Unbroken line) :=
  inferInstanceAs (Decidable (∀ c ∈ line, isLineBreak c = false))

theorem unbroken_cons : Unbroken (c :: line) ↔ isLineBreak c = false ∧ Unbroken line := by
  simp [Unbroken]

theorem splitlinesKeepends_cons (h : isLineBreak c = false) :
    splitlinesKeepends (c :: cs) =
      match splitlinesKeepends cs with
      | []      => [[c]]
      | l :: ls => (c :: l) :: ls := by
  rw [splitlinesKeepends.eq_def]
  split
  case h_1 he => cases he
  case h_2 he =>
    cases he
    cases h
  case h_3 he =>
    cases he
    simp only [h, Bool.false_eq_true, ↓reduceIte]

theorem splitlinesKeepends_line (h : Unbroken line) :
    splitlinesKeepends (line ++ '\n' :: cs) = (line ++ ['\n']) :: splitlinesKeepends cs := by
  induction line with
  | nil            => simp [splitlinesKeepends]
  | cons c line hi =>
    have ⟨hc, hl⟩ := unbroken_cons.mp h
    rw [List.cons_append, splitlinesKeepends_cons hc, hi hl]
    rfl

-- The lines of a text, each with its newline
def joinLines (lines : List (List Char)) : List Char :=
  lines.flatMap (· ++ ['\n'])

@[simp]
theorem joinLines_nil : joinLines [] = [] :=
  rfl

@[simp]
theorem joinLines_cons : joinLines (line :: lines) = line ++ '\n' :: joinLines lines := by
  simp [joinLines]

@[simp]
theorem joinLines_append {lines' : List (List Char)} : joinLines (lines ++ lines') = joinLines lines ++ joinLines lines' := by
  simp [joinLines]

theorem splitlinesKeepends_joinLines (h : ∀ line ∈ lines, Unbroken line) :
    splitlinesKeepends (joinLines lines ++ text) = lines.map (· ++ ['\n']) ++ splitlinesKeepends text := by
  induction lines with
  | nil              => rfl
  | cons line lines hi =>
    have ⟨hl, hls⟩ := List.forall_mem_cons.mp h
    rw [joinLines_cons, List.append_assoc, List.cons_append, splitlinesKeepends_line hl, hi hls]
    rfl

theorem takeWhile_unbroken (h : Unbroken line) : (line ++ ['\n']).takeWhile (!isLineBreak ·) = line := by
  rw [List.takeWhile_append_of_pos fun c hc => by simp [h c hc]]
  simp

theorem splitlines_append (h : ∀ line ∈ lines, Unbroken line) :
    splitlines (joinLines lines ++ text) = lines ++ splitlines text := by
  rw [splitlines, splitlinesKeepends_joinLines h, List.map_append, List.map_map, splitlines]
  congr 1
  exact (List.map_congr_left fun line hl => takeWhile_unbroken (h line hl)).trans (List.map_id _)

theorem splitlines_joinLines (h : ∀ line ∈ lines, Unbroken line) : splitlines (joinLines lines) = lines := by
  have hs : splitlines (joinLines lines ++ []) = lines ++ splitlines [] := splitlines_append h
  rwa [List.append_nil, show splitlines [] = [] from rfl, List.append_nil] at hs

theorem splitlines_unbroken (h : Unbroken line) (hn : line ≠ []) : splitlines line = [line] := by
  have hk : splitlinesKeepends line = [line] := by
    induction line with
    | nil            => exact absurd rfl hn
    | cons c line hi =>
      have ⟨hc, hl⟩ := unbroken_cons.mp h
      rw [splitlinesKeepends_cons hc]
      cases line with
      | nil      => rfl
      | cons d _ => rw [hi hl nofun]
  rw [splitlines, hk, List.map_singleton, List.takeWhile_eq_self_iff.mpr fun c hc => by simp [h c hc]]

theorem rstripEnds_line (hn : '\n' ∉ line) (hr : '\r' ∉ line) : rstripEnds (line ++ ['\n']) = line := by
  rw [rstripEnds, List.rdropWhile_concat_pos _ _ _ (by simp), List.rdropWhile_eq_self_iff]
  intro hl hp
  have hm := List.getLast_mem hl
  simp only [decide_eq_true_eq] at hp
  cases hp with
  | inl hp => exact hr (hp ▸ hm)
  | inr hp => exact hn (hp ▸ hm)

-- Lines without newlines are told apart by their text.
theorem joinLines_injective {lines' : List (List Char)} (h : ∀ line ∈ lines, '\n' ∉ line)
    (h' : ∀ line ∈ lines', '\n' ∉ line) (he : joinLines lines = joinLines lines') : lines = lines' := by
  induction lines generalizing lines' with
  | nil                =>
    cases lines' with
    | nil       => rfl
    | cons _ _  => simp at he
  | cons line lines hi =>
    cases lines' with
    | nil                => simp at he
    | cons line' lines' =>
      have ⟨hl, hls⟩ := List.forall_mem_cons.mp h
      have ⟨hl', hls'⟩ := List.forall_mem_cons.mp h'
      simp only [joinLines_cons] at he
      have hline : line = line' := by
        have ht := congrArg (List.takeWhile (· ≠ '\n')) he
        have hpos : ∀ {l : List Char} {cs}, '\n' ∉ l → (l ++ '\n' :: cs).takeWhile (· ≠ '\n') = l := by
          intro l cs hn
          rw [List.takeWhile_append_of_pos fun c hc => by simpa using fun he : c = '\n' => hn (he ▸ hc)]
          simp
        rwa [hpos hl, hpos hl'] at ht
      subst hline
      rw [hi hls hls' (List.cons.inj (List.append_cancel_left he)).right]

end Theorems
end Python
