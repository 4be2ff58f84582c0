import Mathlib.Data.List.DropRight
import Mathlib.Data.List.Infix
import Mathlib.Data.String.Basic
import BridleModel.Library.FixedWidth

-- Functions of SQLite on texts, which are lists of characters here.
namespace Sqlite

-- A part of a GLOB pattern: `*`, or one character of a set
inductive Glob
  | star
  | one (p : Char → Bool)

def within (lo hi c : Char) : Bool :=
  lo ≤ c ∧ c ≤ hi

def literal (text : String) : List Glob :=
  text.toList.map fun c => .one (· = c)

def glob : List Glob → List Char → Bool
  | [], cs            => cs.isEmpty
  | .star :: ps, cs   => cs.tails.any (glob ps)
  | .one p :: ps, cs  =>
    match cs with
    | []      => false
    | c :: cs => p c && glob ps cs

-- The part of a LIKE pattern that a character is; ASCII letters match in either case.
def likePart : Char → Glob
  | '%' => .star
  | '_' => .one fun _ => true
  | c   => .one (·.toLower = c.toLower)

-- Where the reader of a GLOB pattern is. Directly after `[` or `[^` a `]` is a member of the set, and after the
-- `-` of a range it is not.
inductive GlobMode
  | outside
  | opened (inverted : Bool)
  | inside (inverted : Bool) (p : Char → Bool) (prior : Option Char)
  | ranging (inverted : Bool) (p : Char → Bool) (lo : Char)

namespace GlobMode

def isOutside : GlobMode → Bool
  | outside => true
  | _       => false

-- What a character of the pattern is read to, and the part that it completes
def read (c : Char) : GlobMode → GlobMode × Option Glob
  | outside =>
    if c = '*' then (outside, some .star)
    else if c = '?' then (outside, some <| .one fun _ => true)
    else if c = '[' then (opened false, none)
    else (outside, some <| .one (· = c))
  | opened inverted =>
    if c = '^' ∧ ¬inverted then (opened true, none)
    else if c = ']' then (inside inverted (· = ']') none, none)
    else (inside inverted (· = c) (some c), none)
  | inside inverted p prior =>
    if c = ']' then (outside, some <| .one fun d => p d != inverted)
    else
      match prior with
      | some lo => if c = '-' then (ranging inverted p lo, none) else (inside inverted (fun d => p d || d = c) (some c), none)
      | none    => (inside inverted (fun d => p d || d = c) (some c), none)
  | ranging inverted p lo =>
    if c = ']' then (outside, some <| .one fun d => (p d || d = '-') != inverted)
    else (inside inverted (fun d => p d || within lo c d) none, none)

end GlobMode

-- The parts of a GLOB pattern. A set that is not closed matches nothing.
def globParts (mode : GlobMode) : List Char → List Glob
  | []      => if mode.isOutside then [] else [.one fun _ => false]
  | c :: cs => (mode.read c).2.toList ++ globParts (mode.read c).1 cs

-- `text GLOB pattern`
def globText (text pattern : String) : Bool :=
  glob (globParts .outside pattern.toList) text.toList

-- Whether a GLOB pattern closes the sets that it opens
def globClosed (mode : GlobMode) (pattern : List Char) : Bool :=
  (pattern.foldl (fun mode c => (mode.read c).1) mode).isOutside

-- `substr(x, pos, n)` of a position that counts from 1
def substr (cs : List Char) (pos n : Nat) : List Char :=
  (cs.drop (pos - 1)).take n

-- `instr(x, c)`
def instr (cs : List Char) (c : Char) : Nat :=
  if c ∈ cs then cs.idxOf c + 1 else 0

-- `rtrim(x, '0123456789')`
def rtrimDigits (cs : List Char) : List Char :=
  cs.rdropWhile (·.isDigit)

-- The largest INTEGER
def maxInteger : Nat :=
  2 ^ 63 - 1

-- `CAST(x AS INTEGER)` of a text of digits
def castInteger (cs : List Char) : Nat :=
  min (Nat.ofDigitChars 10 (cs.takeWhile (·.isDigit)) 0) maxInteger

-- `printf('%d', n)`
def printInteger (n : Nat) : List Char :=
  Nat.toDigits 10 n

def isDigit : Char → Bool :=
  within '0' '9'

-- `datetime(x) IS NOT NULL` of a text that has the shape `YYYY-MM-DDTHH:MM:SS.ffffffZ`
def isDateTime (cs : List Char) : Bool :=
  match FixedWidth.parse [(4, '-'), (2, '-'), (2, 'T'), (2, ':'), (2, ':'), (2, '.'), (6, 'Z')] cs with
  | some [_, month, day, hour, minute, second, _] =>
    (1 ≤ month ∧ month ≤ 12) ∧ (1 ≤ day ∧ day ≤ 31) ∧ hour ≤ 24 ∧ minute ≤ 59 ∧ second ≤ 59
  | _ => false

section Glob

variable {ps : List Glob} {cs ds : List Char} {c : Char} {p : Char → Bool}

@[simp]
theorem glob_nil : glob [] cs ↔ cs = [] := by
  simp [glob]

@[simp]
theorem glob_one : glob (.one p :: ps) (c :: cs) ↔ p c ∧ glob ps cs := by
  simp [glob]

theorem glob_star_iff : glob (.star :: ps) cs ↔ ∃ xs ys, cs = xs ++ ys ∧ glob ps ys := by
  simp only [glob, List.any_eq_true, List.mem_tails]
  constructor
  · intro ⟨ys, ⟨xs, h⟩, hg⟩
    exact ⟨xs, ys, h.symm, hg⟩
  · intro ⟨xs, ys, h, hg⟩
    exact ⟨ys, ⟨xs, h.symm⟩, hg⟩

theorem glob_star_append (h : glob ps ds) : glob (.star :: ps) (cs ++ ds) :=
  glob_star_iff.mpr ⟨cs, ds, rfl, h⟩

theorem glob_one_iff : glob (.one p :: ps) cs ↔ ∃ c ds, cs = c :: ds ∧ p c ∧ glob ps ds := by
  cases cs with
  | nil       => simp [glob]
  | cons c cs => simp [glob]

theorem glob_star : glob [.star] cs := by
  simpa using @glob_star_append [] cs [] (by simp)

theorem glob_literal {text : String} : glob (literal text ++ ps) (text.toList ++ cs) = glob ps cs := by
  unfold literal
  induction text.toList with
  | nil           => rfl
  | cons hd tl hi => simpa [glob] using hi

-- `x NOT GLOB '*[^...]*'`
theorem glob_any : glob [.star, .one p, .star] cs ↔ ∃ c ∈ cs, p c := by
  rw [glob_star_iff]
  constructor
  · intro ⟨xs, ys, h, hg⟩
    have ⟨c, ds, hc, hp, _⟩ := glob_one_iff.mp hg
    exact ⟨c, by simp [h, hc], hp⟩
  · intro ⟨c, hc, hp⟩
    have ⟨xs, ys, h⟩ := List.append_of_mem hc
    exact ⟨xs, c :: ys, h, glob_one.mpr ⟨hp, glob_star⟩⟩

theorem glob_append_iff {qs : List Glob} :
    glob (ps ++ qs) cs ↔ ∃ xs ys, cs = xs ++ ys ∧ glob ps xs ∧ glob qs ys := by
  induction ps generalizing cs with
  | nil =>
    constructor
    · exact fun h => ⟨[], cs, rfl, glob_nil.mpr rfl, h⟩
    · rintro ⟨xs, ys, rfl, hx, hy⟩
      rwa [glob_nil.mp hx]
  | cons part ps hi =>
    cases part with
    | star  =>
      rw [List.cons_append, glob_star_iff]
      constructor
      · rintro ⟨as, bs, rfl, h⟩
        obtain ⟨xs, ys, rfl, hx, hy⟩ := hi.mp h
        exact ⟨as ++ xs, ys, (List.append_assoc ..).symm, glob_star_append hx, hy⟩
      · rintro ⟨xs, ys, rfl, hx, hy⟩
        obtain ⟨as, bs, rfl, hb⟩ := glob_star_iff.mp hx
        exact ⟨as, bs ++ ys, List.append_assoc .., hi.mpr ⟨bs, ys, rfl, hb, hy⟩⟩
    | one p =>
      rw [List.cons_append, glob_one_iff]
      constructor
      · rintro ⟨c, ds, rfl, hp, h⟩
        obtain ⟨xs, ys, rfl, hx, hy⟩ := hi.mp h
        exact ⟨c :: xs, ys, rfl, glob_one.mpr ⟨hp, hx⟩, hy⟩
      · rintro ⟨xs, ys, rfl, hx, hy⟩
        obtain ⟨c, ds, rfl, hp, hd⟩ := glob_one_iff.mp hx
        exact ⟨c, ds ++ ys, rfl, hp, hi.mpr ⟨ds, ys, rfl, hd, hy⟩⟩

end Glob

section Pattern

variable {mode : GlobMode} {pattern rest cs : List Char}

theorem glob_prefix_iff {part : Char → Glob} (h : ∀ c ∈ pattern, ∃ p, part c = .one p ∧ ∀ d, p d ↔ d = c) :
    glob (pattern.map part ++ [.star]) cs ↔ pattern <+: cs := by
  induction pattern generalizing cs with
  | nil          => exact iff_of_true glob_star List.nil_prefix
  | cons c tl hi =>
    obtain ⟨p, hp, hd⟩ := h c List.mem_cons_self
    have tail : ∀ {ds}, glob (tl.map part ++ [.star]) ds ↔ tl <+: ds :=
      hi fun d hd => h d (List.mem_cons_of_mem _ hd)
    rw [List.map_cons, hp, List.cons_append, glob_one_iff]
    constructor
    · rintro ⟨d, ds, rfl, hpd, hg⟩
      rw [(hd d).mp hpd]
      exact List.cons_prefix_cons.mpr ⟨rfl, tail.mp hg⟩
    · rintro ⟨rest, rfl⟩
      exact ⟨c, tl ++ rest, rfl, (hd c).mpr rfl, tail.mpr (List.prefix_append ..)⟩

theorem toNat_toLower {c : Char} : c.toLower.toNat = if 65 ≤ c.toNat ∧ c.toNat ≤ 90 then c.toNat + 32 else c.toNat := by
  unfold Char.toLower
  by_cases h : c.val ≥ 'A'.val ∧ c.val ≤ 'Z'.val
  case pos =>
    have h' : 65 ≤ c.toNat ∧ c.toNat ≤ 90 := ⟨UInt32.le_iff_toNat_le.mp h.1, UInt32.le_iff_toNat_le.mp h.2⟩
    rw [dif_pos h, if_pos h', Char.toNat, UInt32.toNat_add]
    exact Nat.mod_eq_of_lt (lt_of_le_of_lt (Nat.add_le_add_right h'.2 32) (by decide))
  case neg =>
    have h' : ¬(65 ≤ c.toNat ∧ c.toNat ≤ 90) := fun h' =>
      h ⟨UInt32.le_iff_toNat_le.mpr h'.1, UInt32.le_iff_toNat_le.mpr h'.2⟩
    rw [dif_neg h, if_neg h']

theorem toLower_eq_iff {c d : Char} (hc : c.toNat < 65) : d.toLower = c.toLower ↔ d = c := by
  constructor
  · intro h
    have ht := congrArg Char.toNat h
    rw [toNat_toLower, toNat_toLower] at ht
    exact Char.toNat_inj.mp (by split at ht <;> split at ht <;> omega)
  · rintro rfl
    rfl

theorem likePart_eq {c : Char} (hp : c ≠ '%') (hu : c ≠ '_') : likePart c = .one (·.toLower = c.toLower) := by
  rw [likePart.eq_def]
  split
  · exact absurd rfl hp
  · exact absurd rfl hu
  · rfl

theorem glob_likePart_of_plain (h : ∀ c ∈ pattern, c ≠ '%' ∧ c ≠ '_') :
    glob (pattern.map likePart) cs ↔ cs.map Char.toLower = pattern.map Char.toLower := by
  induction pattern generalizing cs with
  | nil          => rw [List.map_nil, glob_nil, List.map_nil, List.map_eq_nil_iff]
  | cons c tl hi =>
    have hc := h c List.mem_cons_self
    have tail : ∀ {ds}, glob (tl.map likePart) ds ↔ ds.map Char.toLower = tl.map Char.toLower :=
      hi fun d hd => h d (List.mem_cons_of_mem _ hd)
    rw [List.map_cons, likePart_eq hc.1 hc.2, glob_one_iff, List.map_cons, List.map_eq_cons_iff]
    simp only [tail, decide_eq_true_eq]

-- A pattern and then a text without letters and wildcards, which the rest of the row may follow.
theorem glob_likePart_iff (h : ∀ c ∈ rest, c.toNat < 65 ∧ c ≠ '%') :
    glob ((pattern ++ rest ++ ['%']).map likePart) cs ↔
      ∃ xs, glob (pattern.map likePart) xs ∧ xs ++ rest <+: cs := by
  have part : ∀ c ∈ rest, ∃ p, likePart c = .one p ∧ ∀ d, p d ↔ d = c := by
    intro c hc
    have hu : c ≠ '_' := by
      rintro rfl
      exact absurd (h _ hc).1 (by decide)
    exact ⟨_, likePart_eq (h c hc).2 hu, fun d => by rw [decide_eq_true_eq, toLower_eq_iff (h c hc).1]⟩
  rw [List.append_assoc, List.map_append, List.map_append, glob_append_iff]
  constructor
  · rintro ⟨xs, ys, rfl, hx, hy⟩
    exact ⟨xs, hx, (List.prefix_append_right_inj xs).mpr ((glob_prefix_iff part).mp hy)⟩
  · rintro ⟨xs, hx, ys, rfl⟩
    exact ⟨xs, rest ++ ys, List.append_assoc .., hx, (glob_prefix_iff part).mpr (List.prefix_append ..)⟩

theorem glob_never {ps : List Glob} : ¬glob (.one (fun _ => false) :: ps) cs := by
  rw [glob_one_iff]
  rintro ⟨_, _, _, h, _⟩
  exact absurd h Bool.false_ne_true

-- A LIKE pattern matches its own text.
theorem glob_likePart : glob (pattern.map likePart) pattern := by
  induction pattern with
  | nil          => exact glob_nil.mpr rfl
  | cons c cs hi =>
    rw [List.map_cons, likePart.eq_def]
    split
    · exact glob_star_iff.mpr ⟨['%'], cs, rfl, hi⟩
    · exact glob_one.mpr ⟨rfl, hi⟩
    · exact glob_one.mpr ⟨decide_eq_true rfl, hi⟩

-- A pattern whose sets are closed goes on with the parts of what follows it.
theorem globParts_append (h : globClosed mode pattern) :
    globParts mode (pattern ++ rest) = globParts mode pattern ++ globParts .outside rest := by
  induction pattern generalizing mode with
  | nil          =>
    cases mode with
    | outside => rfl
    | _       => exact absurd h Bool.false_ne_true
  | cons c cs hi => rw [List.cons_append, globParts, globParts, hi h, List.append_assoc]

theorem isOutside_read {c : Char} (hm : mode.isOutside = false) (hc : c ≠ ']') :
    (mode.read c).1.isOutside = false ∧ (mode.read c).2 = none := by
  cases mode with
  | outside                 => exact absurd hm (by decide)
  | opened inverted         =>
    simp only [GlobMode.read, hc, if_false]
    split
    · exact ⟨rfl, rfl⟩
    · exact ⟨rfl, rfl⟩
  | inside inverted p prior =>
    cases prior with
    | none    => simp [GlobMode.read, hc, GlobMode.isOutside]
    | some lo =>
      simp only [GlobMode.read, hc, if_false]
      split
      · exact ⟨rfl, rfl⟩
      · exact ⟨rfl, rfl⟩
  | ranging inverted p lo   => simp [GlobMode.read, hc, GlobMode.isOutside]

theorem globParts_inside (hm : mode.isOutside = false) (h : ']' ∉ pattern) :
    globParts mode pattern = [.one fun _ => false] := by
  induction pattern generalizing mode with
  | nil          => simp [globParts, hm]
  | cons c cs hi =>
    have hc := isOutside_read hm (List.ne_of_not_mem_cons h).symm
    rw [globParts, hc.2, hi hc.1 (List.not_mem_of_not_mem_cons h), Option.toList_none, List.nil_append]

-- One that leaves a set open matches nothing, as long as what follows it does not close the set.
theorem globParts_unclosed (h : globClosed mode pattern = false) (hr : ']' ∉ rest) :
    ¬glob (globParts mode (pattern ++ rest)) cs := by
  induction pattern generalizing mode cs with
  | nil          =>
    have hm : mode.isOutside = false := h
    rw [List.nil_append, globParts_inside hm hr]
    exact glob_never
  | cons c tl hi =>
    rw [List.cons_append, globParts, glob_append_iff]
    rintro ⟨xs, ys, -, -, hg⟩
    exact hi h hg

theorem globParts_literal (h : ∀ c ∈ pattern, c ∉ ['*', '?', '[']) :
    globParts .outside (pattern ++ rest) = pattern.map (fun c => .one (· = c)) ++ globParts .outside rest := by
  induction pattern with
  | nil          => rfl
  | cons c tl hi =>
    have hc := h c List.mem_cons_self
    simp only [List.mem_cons, List.not_mem_nil, or_false, not_or] at hc
    have hr : GlobMode.read c .outside = (.outside, some (.one (· = c))) := by
      rw [GlobMode.read, if_neg hc.1, if_neg hc.2.1, if_neg hc.2.2]
    rw [List.cons_append, globParts, hr, hi fun d hd => h d (List.mem_cons_of_mem _ hd)]
    rfl

-- A GLOB pattern and then a text without wildcards, which the rest of the row may follow.
theorem globParts_iff (h : ∀ c ∈ rest, c ∉ ['*', '?', '[', ']']) :
    glob (globParts .outside (pattern ++ rest ++ ['*'])) cs ↔
      globClosed .outside pattern ∧ ∃ xs, glob (globParts .outside pattern) xs ∧ xs ++ rest <+: cs := by
  have hl : ∀ c ∈ rest, c ∉ ['*', '?', '['] := fun c hc hm => h c hc (by simp_all)
  cases hp : globClosed .outside pattern with
  | false =>
    refine iff_of_false ?_ fun h => absurd h.1 Bool.false_ne_true
    rw [List.append_assoc]
    refine globParts_unclosed hp ?_
    rw [List.mem_append]
    rintro (hm | hm)
    · exact h _ hm (by decide)
    · exact absurd hm (by decide)
  | true  =>
    have star : globParts .outside ['*'] = [.star] := rfl
    rw [List.append_assoc, globParts_append hp, globParts_literal hl, star, glob_append_iff]
    constructor
    · rintro ⟨xs, ys, rfl, hx, hy⟩
      exact ⟨rfl, xs, hx, (List.prefix_append_right_inj xs).mpr
        ((glob_prefix_iff fun c _ => ⟨_, rfl, fun _ => decide_eq_true_iff⟩).mp hy)⟩
    · rintro ⟨-, xs, hx, ys, rfl⟩
      exact ⟨xs, rest ++ ys, List.append_assoc .., hx,
        (glob_prefix_iff fun c _ => ⟨_, rfl, fun _ => decide_eq_true_iff⟩).mpr (List.prefix_append ..)⟩

end Pattern

section Integer

variable {n : Nat} {cs : List Char}

theorem isDigit_toDigits : ∀ c ∈ Nat.toDigits 10 n, c.isDigit :=
  fun _ hc => Nat.isDigit_of_mem_toDigits (by decide) (by decide) hc

theorem rtrimDigits_append {c : Char} (hc : ¬c.isDigit) :
    rtrimDigits (cs ++ c :: Nat.toDigits 10 n) = cs ++ [c] := by
  have h : (Nat.toDigits 10 n).reverse.dropWhile (·.isDigit) = [] :=
    List.dropWhile_eq_nil_iff.mpr fun d hd => isDigit_toDigits d (List.mem_reverse.mp hd)
  rw [rtrimDigits, List.rdropWhile, List.reverse_append, List.reverse_cons, List.append_assoc,
    List.dropWhile_append_of_pos (fun d hd => isDigit_toDigits d (List.mem_reverse.mp hd))]
  simp [hc]

theorem castInteger_toDigits : castInteger (Nat.toDigits 10 n) = min n maxInteger := by
  rw [castInteger, List.takeWhile_eq_self_iff.mpr isDigit_toDigits, Nat.ofDigitChars_ten_toDigits]

-- A number that does not fit into an INTEGER is printed as another one.
theorem printInteger_castInteger :
    printInteger (castInteger (Nat.toDigits 10 n)) = Nat.toDigits 10 n ↔ n < 2 ^ 63 := by
  rw [castInteger_toDigits, printInteger]
  constructor
  · intro h
    have h' := congrArg (Nat.ofDigitChars 10 · 0) h
    simp only [Nat.ofDigitChars_ten_toDigits] at h'
    unfold maxInteger at h'
    omega
  · intro h
    rw [min_eq_left]
    unfold maxInteger
    omega

end Integer
end Sqlite
