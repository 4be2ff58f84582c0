import BridleModel.Tools.DiffFormat

open Python

namespace Tools.UnifiedDiff

section Header

variable {n d i j before count : Nat} {short : Bool} {rest cs : List Char} {p : Piece}

theorem digitValue_digitChar : ∀ d < 10, digitValue d.digitChar = some d := by
  decide

-- No digit comes first in the text.
def Stops (rest : List Char) : Prop :=
  ∀ c ∈ rest.head?, digitValue c = none

theorem readDigits_append (h : ∀ c ∈ cs, (digitValue c).isSome) (hr : Stops rest) :
    readDigits (cs ++ rest) = (cs.filterMap digitValue, rest) := by
  induction cs with
  | nil          =>
    cases rest with
    | nil       => rfl
    | cons c cs => simp [readDigits, hr c rfl]
  | cons c cs hi =>
    have ⟨hc, hcs⟩ := List.forall_mem_cons.mp h
    have ⟨d, hd⟩ := Option.isSome_iff_exists.mp hc
    simp [readDigits, hd, hi hcs]

theorem digits_toDigits : ∀ c ∈ Nat.toDigits 10 n, (digitValue c).isSome := by
  induction n using Nat.strongRecOn with
  | ind n hi =>
    by_cases hn : n < 10
    case pos =>
      simp [Nat.toDigits_of_lt_base hn, digitValue_digitChar n hn]
    case neg =>
      rw [Nat.toDigits_of_base_le (by decide) (by omega)]
      intro c hc
      cases List.mem_append.mp hc with
      | inl hc => exact hi (n / 10) (by omega) c hc
      | inr hc => simp [List.mem_singleton.mp hc, digitValue_digitChar (n % 10) (by omega)]

theorem value_toDigits : Nat.ofDigits 10 ((Nat.toDigits 10 n).filterMap digitValue).reverse = n := by
  induction n using Nat.strongRecOn with
  | ind n hi =>
    by_cases hn : n < 10
    case pos =>
      simp [Nat.toDigits_of_lt_base hn, digitValue_digitChar n hn]
    case neg =>
      have hd := digitValue_digitChar (n % 10) (by omega)
      rw [Nat.toDigits_of_base_le (by decide) (by omega)]
      simp [hd, Nat.ofDigits_cons, hi (n / 10) (by omega)]
      omega

theorem readNumber_toDigits (hr : Stops rest) : readNumber (Nat.toDigits 10 n ++ rest) = some (n, rest) := by
  rw [readNumber, readDigits_append digits_toDigits hr]
  cases hd : (Nat.toDigits 10 n).filterMap digitValue with
  | nil       =>
    cases ht : Nat.toDigits 10 n with
    | nil       => exact absurd ht Nat.toDigits_ne_nil
    | cons c cs =>
      have ⟨_, hc⟩ := Option.isSome_iff_exists.mp (digits_toDigits c (ht ▸ List.mem_cons_self))
      simp [ht, hc] at hd
  | cons d ds =>
    dsimp only
    rw [← hd, value_toDigits]

theorem readRange_rangeText :
    readRange (rangeText short before count ++ ' ' :: rest) =
      some ((rangeStart before count, count), ' ' :: rest) := by
  have hblank : Stops (' ' :: rest) := by
    intro c hc
    cases hc
    decide
  unfold rangeText
  split
  case isTrue h  =>
    rw [readRange, readNumber_toDigits hblank, h.right]
    rfl
  case isFalse h =>
    have hcomma : Stops (',' :: (Nat.toDigits 10 count ++ ' ' :: rest)) := by
      intro c hc
      cases hc
      decide
    rw [List.append_assoc, List.cons_append, readRange, readNumber_toDigits hcomma]
    simp [readNumber_toDigits hblank]

theorem readHeader_header :
    readHeader (p.header i j) =
      some ((rangeStart i p.body.old.length, p.body.old.length), (rangeStart j p.body.new.length, p.body.new.length)) := by
  simp only [Piece.header, List.append_assoc, List.cons_append, List.nil_append]
  simp [readHeader, List.isPrefixOf?, readRange_rangeText]

end Header

section Body

variable {body : Body} {line : Mark × List Char} {h : DiffHunk}

-- What a hunk takes from the lines of a body
structure Taken (h : DiffHunk) (body : Body) (h' : DiffHunk) : Prop where
  start  : h'.oldStart = h.oldStart
  count  : h'.oldCount = h.oldCount
  old    : h'.oldLines = h.oldLines ++ body.old
  new    : h'.newLines = h.newLines ++ body.new
  marker : h'.noNewlineMarker = h.noNewlineMarker

theorem Body.old_cons : Body.old (line :: body) = if line.fst = .added then body.old else line.snd :: body.old := by
  by_cases hm : line.fst = .added <;> simp [Body.old, hm]

theorem Body.new_cons : Body.new (line :: body) = if line.fst = .removed then body.new else line.snd :: body.new := by
  by_cases hm : line.fst = .removed <;> simp [Body.new, hm]

theorem foldl_take : Taken h body (body.lines.foldl DiffHunk.take h) := by
  induction body generalizing h with
  | nil            => constructor <;> simp [Body.lines, Body.old, Body.new]
  | cons line body hi =>
    have ⟨mark, text⟩ := line
    have hb := hi (h := h.take (mark.char :: text))
    constructor
    case start  => exact hb.start.trans (by cases mark <;> rfl)
    case count  => exact hb.count.trans (by cases mark <;> rfl)
    case old    => exact hb.old.trans (by cases mark <;> simp [Body.old_cons, DiffHunk.take, DiffHunk.context, Mark.char])
    case new    => exact hb.new.trans (by cases mark <;> simp [Body.new_cons, DiffHunk.take, DiffHunk.context, Mark.char])
    case marker => exact hb.marker.trans (by cases mark <;> rfl)

theorem Body.not_hunkMark : ∀ line ∈ body.lines, ¬hunkMark <+: line := by
  intro line hl
  have ⟨⟨mark, text⟩, _, he⟩ := List.mem_map.mp hl
  subst he
  cases mark <;> simp [hunkMark, Mark.char]

end Body

section Parse

variable {i j k n : Nat} {lines rest : List (List Char)} {parsed : ParsedDiff} {p : Piece} {ps : List Piece}

-- The lines of the body before one that reads as a header
def Piece.kept (p : Piece) : Body :=
  p.body.takeWhile fun line => !endsHunk (line.fst.char :: line.snd)

-- The hunk as it is read
def Piece.hunk (p : Piece) (i j : Nat) : DiffHunk :=
  p.kept.lines.foldl DiffHunk.take {
    oldStart := rangeStart i p.body.old.length
    oldCount := p.body.old.length
    newStart := rangeStart j p.body.new.length
    newCount := p.body.new.length
  }

def hunksOf (i j : Nat) : List Piece → List DiffHunk
  | []      => []
  | p :: ps =>
    p.hunk (i + p.gap.length) (j + p.gap.length) ::
      hunksOf (i + p.gap.length + p.body.old.length) (j + p.gap.length + p.body.new.length) ps

theorem parseLines_skip (hk : k ≤ lines.length) :
    parseLines k n lines parsed = parseLines 0 (n + k) (lines.drop k) parsed := by
  induction lines generalizing k n with
  | nil             =>
    cases Nat.le_zero.mp hk
    rfl
  | cons line lines hi =>
    cases k with
    | zero   => rfl
    | succ k =>
      rw [parseLines, hi (Nat.le_of_succ_le_succ hk), List.drop_succ_cons, Nat.add_right_comm, Nat.add_assoc]

variable (n rest parsed) in
theorem parseLines_other (h : ∀ line ∈ lines, ¬hunkMark <+: line) :
    ∃ parsed', parsed'.hunks = parsed.hunks ∧
      parseLines 0 n (lines ++ rest) parsed = parseLines 0 (n + lines.length) rest parsed' := by
  induction lines generalizing n parsed with
  | nil             => exact ⟨parsed, rfl, rfl⟩
  | cons line lines hi =>
    have ⟨hl, hls⟩ := List.forall_mem_cons.mp h
    have hlength : n + (line :: lines).length = n + 1 + lines.length := by
      simp only [List.length_cons]
      omega
    rw [List.cons_append, parseLines, hlength, if_neg hl]
    split
    case isTrue  => exact hi (n + 1) { parsed with oldPath := stripChars (line.drop diffHeaderOld.length) } hls
    case isFalse =>
      split
      case isTrue  => exact hi (n + 1) { parsed with newPath := stripChars (line.drop diffHeaderNew.length) } hls
      case isFalse => exact hi (n + 1) parsed hls

theorem header_hunkMark : hunkMark <+: p.header i j :=
  ⟨_, by simp [Piece.header, hunkMark]; rfl⟩

theorem takeWhile_hunkLines : (hunkLines i j ps).takeWhile (!endsHunk ·) = [] := by
  cases ps with
  | nil       => rfl
  | cons p ps => simp [hunkLines, endsHunk, header_hunkMark]

theorem takeWhile_lines : (p.body.lines ++ hunkLines i j ps).takeWhile (!endsHunk ·) = p.kept.lines := by
  rw [List.takeWhile_append, takeWhile_hunkLines, List.append_nil]
  split
  case isTrue h  =>
    rw [← List.takeWhile_prefix _ |>.eq_of_length h]
    exact List.takeWhile_map
  case isFalse h => exact List.takeWhile_map

theorem parseHunk_header :
    parseHunk (p.header i j :: (p.body.lines ++ hunkLines n k ps)) = (some (p.hunk i j), 1 + p.kept.length) := by
  have hlength : p.kept.lines.length = p.kept.length := List.length_map _
  rw [parseHunk, readHeader_header]
  dsimp only
  rw [takeWhile_lines, hlength]
  rfl

variable (i j n parsed ps) in
theorem parseLines_hunkLines :
    ∃ parsed', parseLines 0 n (hunkLines i j ps) parsed = .ok parsed' ∧
      parsed'.hunks = parsed.hunks ++ hunksOf i j ps := by
  induction ps generalizing i j n parsed with
  | nil       => exact ⟨parsed, rfl, by simp [hunksOf]⟩
  | cons p ps hi =>
    have hold : ¬diffHeaderOld <+: p.header (i + p.gap.length) (j + p.gap.length) := by
      simp [Piece.header, diffHeaderOld]
    have hnew : ¬diffHeaderNew <+: p.header (i + p.gap.length) (j + p.gap.length) := by
      simp [Piece.header, diffHeaderNew]
    have hkept : p.kept.length ≤ p.body.lines.length := by
      rw [Body.lines, List.length_map]
      exact (List.takeWhile_prefix _).length_le
    have hdrop : ∀ line ∈ p.body.lines.drop p.kept.length, ¬hunkMark <+: line :=
      fun line hl => Body.not_hunkMark line (List.mem_of_mem_drop hl)
    rw [hunkLines, List.cons_append, parseLines, if_neg hold, if_neg hnew, if_pos header_hunkMark, parseHunk_header]
    dsimp only
    rw [Nat.add_sub_cancel_left, parseLines_skip (by rw [List.length_append]; omega), List.drop_append_of_le_length hkept]
    have ⟨parsed₁, hh₁, hp₁⟩ := parseLines_other (n + 1 + p.kept.length)
      (hunkLines (i + p.gap.length + p.body.old.length) (j + p.gap.length + p.body.new.length) ps)
      { parsed with hunks := parsed.hunks ++ [p.hunk (i + p.gap.length) (j + p.gap.length)] } hdrop
    rw [hp₁]
    have ⟨parsed₂, hp₂, hh₂⟩ := hi (i + p.gap.length + p.body.old.length) (j + p.gap.length + p.body.new.length)
      (n + 1 + p.kept.length + (p.body.lines.drop p.kept.length).length) parsed₁
    exact ⟨parsed₂, hp₂, by rw [hh₂, hh₁, hunksOf, List.append_assoc, List.singleton_append]⟩

end Parse

section Read

variable {c : Char} {n i j before count : Nat} {short : Bool} {text text' : List Char} {p : Piece} {ps : List Piece} {d : Written}

theorem unbroken_append : Unbroken (text ++ text') ↔ Unbroken text ∧ Unbroken text' := by
  simp [Unbroken, or_imp, forall_and]

theorem unbroken_toDigits : Unbroken (Nat.toDigits 10 n) := by
  intro c hc
  have hd := Nat.isDigit_of_mem_toDigits (by decide) (by decide) hc
  have hn : 48 ≤ c.toNat ∧ c.toNat ≤ 57 := by
    simpa [Char.isDigit, UInt32.le_iff_toNat_le] using hd
  simp only [isLineBreak, decide_eq_false_iff_not]
  omega

theorem unbroken_rangeText : Unbroken (rangeText short before count) := by
  unfold rangeText
  split
  case isTrue  => exact unbroken_toDigits
  case isFalse => exact unbroken_append.mpr ⟨unbroken_toDigits, unbroken_cons.mpr ⟨by decide, unbroken_toDigits⟩⟩

theorem unbroken_header (h : Unbroken p.heading) : Unbroken (p.header i j) := by
  have hmark : Unbroken ['@', '@', ' ', '-'] ∧ Unbroken [' ', '+'] ∧ Unbroken [' ', '@', '@'] := by
    simp [Unbroken]
    decide
  simp only [Piece.header, unbroken_append]
  exact ⟨⟨⟨⟨⟨hmark.left, unbroken_rangeText⟩, hmark.right.left⟩, unbroken_rangeText⟩, hmark.right.right⟩, h⟩

theorem unbroken_lines (h : ∀ text ∈ p.texts, Unbroken text) : ∀ line ∈ p.body.lines, Unbroken line := by
  intro line hl
  have ⟨⟨mark, text⟩, hm, he⟩ := List.mem_map.mp hl
  subst he
  apply unbroken_cons.mpr
  constructor
  case left  => cases mark <;> rfl
  case right => exact h text (List.mem_append_right _ (List.mem_map_of_mem hm))

theorem unbroken_hunkLines (h : ∀ p ∈ ps, ∀ text ∈ p.texts, Unbroken text) :
    ∀ line ∈ hunkLines i j ps, Unbroken line := by
  induction ps generalizing i j with
  | nil       => exact fun _ hl => nomatch hl
  | cons p ps hi =>
    have ⟨hp, hps⟩ := List.forall_mem_cons.mp h
    intro line hl
    simp only [hunkLines, List.cons_append, List.mem_cons, List.mem_append] at hl
    cases hl with
    | inl hl =>
      rw [hl]
      exact unbroken_header (hp _ List.mem_cons_self)
    | inr hl =>
      cases hl with
      | inl hl => exact unbroken_lines hp line hl
      | inr hl => exact hi hps line hl

theorem Written.splitlines_diff (hc : d.Clean) : splitlines d.diff = d.heads ++ hunkLines 0 0 d.pieces := by
  apply splitlines_joinLines
  intro line hl
  cases List.mem_append.mp hl with
  | inl hl => exact hc.left line hl
  | inr hl => exact unbroken_hunkLines hc.right line hl

theorem stripChars_ne_nil (hm : c ∈ text) (hc : isSpace c = false) : stripChars text ≠ [] := by
  intro he
  have hall := List.rdropWhile_eq_nil_iff.mp he
  have hmem : c ∈ text.dropWhile isSpace := by
    have happ := List.takeWhile_append_dropWhile (p := isSpace) (l := text)
    cases List.mem_append.mp (happ ▸ hm) with
    | inl hm => exact absurd (List.mem_takeWhile_imp hm) (by simp [hc])
    | inr hm => exact hm
  exact absurd (hall c hmem) (by simp [hc])

-- The hunks are read up to the first line that reads as a header.
theorem Written.parse_diff (hc : d.Clean) (hp : d.pieces ≠ []) :
    ∃ parsed, parseUnifiedDiff d.diff = .ok parsed ∧ parsed.hunks = hunksOf 0 0 d.pieces := by
  have ⟨parsed₁, hh₁, hp₁⟩ := parseLines_other 0 (hunkLines 0 0 d.pieces) { hunks := [] } d.headed
  have ⟨parsed₂, hp₂, hh₂⟩ := parseLines_hunkLines 0 0 (0 + d.heads.length) parsed₁ d.pieces
  have hhunks : parsed₂.hunks = hunksOf 0 0 d.pieces := by
    rw [hh₂, hh₁, List.nil_append]
  refine ⟨parsed₂, ?_, hhunks⟩
  cases hps : d.pieces with
  | nil       => exact absurd hps hp
  | cons p ps =>
    have hat : '@' ∈ d.diff := by
      simp [Written.diff, hps, hunkLines, Piece.header]
    rw [parseUnifiedDiff, if_neg (stripChars_ne_nil hat (by decide)), d.splitlines_diff hc, hp₁, hp₂]
    simp [Bind.bind, Except.bind, hhunks, hps, hunksOf, Pure.pure, Except.pure]

theorem Written.parse_nil (hc : d.Clean) (hp : d.pieces = []) (parsed : ParsedDiff) :
    parseUnifiedDiff d.diff ≠ .ok parsed := by
  have ⟨parsed₁, hh₁, hp₁⟩ := parseLines_other 0 [] { hunks := [] } d.headed
  rw [parseUnifiedDiff]
  split
  case isTrue  => exact nofun
  case isFalse =>
    rw [d.splitlines_diff hc, hp, hunkLines, hp₁]
    simp [parseLines, Bind.bind, Except.bind, hh₁]

end Read
end Tools.UnifiedDiff
