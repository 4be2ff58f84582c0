import BridleModel.Library.Except
import BridleModel.Tools.Theorems.DiffFormat

open Python

namespace Tools.UnifiedDiff

section Hunk

variable {a a' : Applied} {h : DiffHunk} {k : Nat}

theorem eq_of_zip {α : Type} {xs ys : List α} (hl : xs.length = ys.length) (h : ∀ pair ∈ xs.zip ys, pair.fst = pair.snd) :
    xs = ys := by
  induction xs generalizing ys with
  | nil          => exact (List.length_eq_zero_iff.mp hl.symm).symm
  | cons x xs hi =>
    cases ys with
    | nil       => cases hl
    | cons y ys =>
      have ⟨hx, hxs⟩ := List.forall_mem_cons.mp h
      rw [show x = y from hx, hi (Nat.succ.inj hl) hxs]

theorem eq_of_mem_zip_self {α : Type} {xs : List α} : ∀ pair ∈ xs.zip xs, pair.fst = pair.snd := by
  induction xs with
  | nil          => exact fun _ hp => nomatch hp
  | cons x xs hi => exact List.forall_mem_cons.mpr ⟨rfl, hi⟩

-- The lines of the hunk are replaced at `k`.
def Applied.after (a : Applied) (h : DiffHunk) (k : Nat) : Applied where
  lines   := a.lines.take k ++ h.newLines.map (· ++ ['\n']) ++ a.lines.drop (k + h.oldCount)
  offset  := a.offset + (h.newLines.length - h.oldCount)
  added   := a.added + h.addedLines.length
  removed := a.removed + h.removedLines.length

-- A hunk is applied where its start and the offset say, if its old lines stand there.
theorem hunk_eq_ok_iff :
    a.hunk h = .ok a' ↔ ∃ k : Nat, (k : Int) = h.oldStart - 1 + a.offset ∧ k ≤ a.lines.length ∧
      ((a.lines.drop k).take h.oldCount).map rstripEnds = h.oldLines ∧ a' = a.after h k := by
  rw [Applied.hunk]
  split
  case isTrue hs  =>
    constructor
    case mp  => exact nofun
    case mpr =>
      intro ⟨k, hk, hle, _⟩
      omega
  case isFalse hs =>
    have hk : ((h.oldStart - 1 + a.offset : Int).toNat : Int) = h.oldStart - 1 + a.offset := Int.toNat_of_nonneg (by omega)
    generalize (h.oldStart - 1 + a.offset : Int).toNat = k at hk ⊢
    have hat : ∀ k' : Nat, (k' : Int) = h.oldStart - 1 + a.offset → k' = k := fun k' hk' => by omega
    dsimp only
    split
    case isTrue hl  =>
      constructor
      case mp  => exact nofun
      case mpr =>
        intro ⟨k', hk', _, he, _⟩
        exact absurd (he ▸ hat k' hk' ▸ rfl) hl
    case isFalse hl =>
      split
      case h_1 ci hci =>
        constructor
        case mp  => exact nofun
        case mpr =>
          intro ⟨k', hk', _, he, _⟩
          rw [hat k' hk'] at he
          rw [he, List.findIdx?_eq_none_iff.mpr] at hci
          · cases hci
          · intro pair hp
            simpa using eq_of_mem_zip_self pair hp
      case h_2 hci    =>
        have he := eq_of_zip (not_not.mp hl).symm fun pair hp => by simpa using List.findIdx?_eq_none_iff.mp hci pair hp
        constructor
        case mp  =>
          intro ha
          cases ha
          exact ⟨k, hk, by omega, he.symm, by simp [Applied.after]⟩
        case mpr =>
          intro ⟨k', hk', _, _, ha⟩
          rw [ha, hat k' hk']
          simp [Applied.after]

end Hunk

section Piece

variable {a a' : Applied} {built built' : List (List Char)} {i j : Nat} {p : Piece} {ps : List Piece} {tail : List Char}

-- The lines are those built so far and the old ones that are left.
structure Stands (a : Applied) (built : List (List Char)) (i : Nat) (ps : List Piece) (tail : List Char) : Prop where
  lines  : a.lines = (built ++ oldLines ps).map (· ++ ['\n']) ++ splitlinesKeepends tail
  offset : a.offset + i = built.length

-- A hunk without old lines is put before the line that it names.
def next (built : List (List Char)) (p : Piece) : Option (List (List Char)) :=
  if p.body.old = [] then
    (built ++ p.gap).getLast?.map fun last => (built ++ p.gap).dropLast ++ p.kept.new ++ [last]
  else if p.kept.old = p.body.old then
    some (built ++ p.gap ++ p.kept.new)
  else
    none

@[simp]
theorem hunk_oldStart : (p.hunk i j).oldStart = rangeStart i p.body.old.length :=
  foldl_take.start

@[simp]
theorem hunk_oldCount : (p.hunk i j).oldCount = p.body.old.length :=
  foldl_take.count

@[simp]
theorem hunk_oldLines : (p.hunk i j).oldLines = p.kept.old :=
  foldl_take.old

@[simp]
theorem hunk_newLines : (p.hunk i j).newLines = p.kept.new :=
  foldl_take.new

@[simp]
theorem hunk_noNewlineMarker : (p.hunk i j).noNewlineMarker = false :=
  foldl_take.marker

def Piece.Proper (p : Piece) : Prop :=
  ∀ text ∈ p.texts, '\n' ∉ text ∧ '\r' ∉ text

theorem Piece.Proper.rstrip (h : p.Proper) : (p.body.old.map (· ++ ['\n'])).map rstripEnds = p.body.old := by
  rw [List.map_map]
  apply (List.map_congr_left _).trans (List.map_id _)
  intro text ht
  have ⟨line, hl, he⟩ := List.mem_map.mp ht
  have hm : text ∈ p.texts := List.mem_append_right _ (he ▸ List.mem_map_of_mem (List.mem_of_mem_filter hl))
  exact rstripEnds_line (h text hm).left (h text hm).right

theorem Body.old_takeWhile {q : Mark × List Char → Bool} {body : Body} (h : body.old = []) :
    Body.old (body.takeWhile q) = [] := by
  simp only [Body.old, List.map_eq_nil_iff, List.filter_eq_nil_iff] at h ⊢
  exact fun line hl => h line ((List.takeWhile_subset _) hl)

variable (hs : Stands a built i (p :: ps) tail)

include hs

theorem Stands.split : a.lines = (built ++ p.gap).map (· ++ ['\n']) ++ (p.body.old.map (· ++ ['\n']) ++
    ((oldLines ps).map (· ++ ['\n']) ++ splitlinesKeepends tail)) := by
  rw [hs.lines]
  simp [oldLines]

theorem Stands.hunk_old (hp : p.Proper) (ho : p.body.old ≠ []) :
    a.hunk (p.hunk (i + p.gap.length) j) = .ok a' ↔
      p.kept.old = p.body.old ∧ a' = a.after (p.hunk (i + p.gap.length) j) (built ++ p.gap).length := by
  have hoff := hs.offset
  have hstart : rangeStart (i + p.gap.length) p.body.old.length = i + p.gap.length + 1 :=
    if_neg (by simpa using ho)
  have hdrop : ((a.lines.drop (built ++ p.gap).length).take p.body.old.length).map rstripEnds = p.body.old := by
    rw [hs.split, List.drop_left' (List.length_map _), List.take_left' (List.length_map _), hp.rstrip]
  rw [hunk_eq_ok_iff]
  simp only [hunk_oldStart, hunk_oldCount, hunk_oldLines, hstart]
  constructor
  case mp  =>
    intro ⟨k, hk, _, he, ha⟩
    have hat : k = (built ++ p.gap).length := by
      rw [List.length_append]
      omega
    subst hat
    exact ⟨(hdrop ▸ he).symm, ha⟩
  case mpr =>
    intro ⟨he, ha⟩
    refine ⟨(built ++ p.gap).length, ?_, ?_, by rw [hdrop, he], ha⟩
    · rw [List.length_append]
      omega
    · simp [hs.split]

theorem Stands.hunk_empty (ho : p.body.old = []) :
    a.hunk (p.hunk (i + p.gap.length) j) = .ok a' ↔
      built ++ p.gap ≠ [] ∧ a' = a.after (p.hunk (i + p.gap.length) j) ((built ++ p.gap).length - 1) := by
  have hoff := hs.offset
  have hstart : rangeStart (i + p.gap.length) p.body.old.length = i + p.gap.length := if_pos (by simp [ho])
  rw [hunk_eq_ok_iff]
  simp only [hunk_oldStart, hunk_oldCount, hunk_oldLines, hstart]
  constructor
  case mp  =>
    intro ⟨k, hk, _, _, ha⟩
    have hat : k + 1 = (built ++ p.gap).length := by
      rw [List.length_append]
      omega
    exact ⟨List.ne_nil_of_length_pos (by omega), by rw [ha, ← hat, Nat.add_sub_cancel]⟩
  case mpr =>
    intro ⟨hne, ha⟩
    have hpos := List.length_pos_of_ne_nil hne
    have hlength : (built ++ p.gap).length = built.length + p.gap.length := List.length_append
    refine ⟨(built ++ p.gap).length - 1, by omega, ?_, by simp [ho, Piece.kept, Body.old_takeWhile ho], ha⟩
    have hlines := congrArg List.length hs.split
    simp only [List.length_append, List.length_map] at hlines
    omega

theorem Stands.after_old :
    Stands (a.after (p.hunk (i + p.gap.length) j) (built ++ p.gap).length) (built ++ p.gap ++ p.kept.new)
      (i + p.gap.length + p.body.old.length) ps tail where
  lines  := by
    have htake : a.lines.take (built ++ p.gap).length = (built ++ p.gap).map (· ++ ['\n']) := by
      rw [hs.split, List.take_left' (List.length_map _)]
    have hdrop : a.lines.drop ((built ++ p.gap).length + p.body.old.length) =
        (oldLines ps).map (· ++ ['\n']) ++ splitlinesKeepends tail := by
      rw [hs.split, ← List.append_assoc, List.drop_left' (by simp [Nat.add_assoc])]
    simp only [Applied.after, hunk_newLines, hunk_oldCount, htake, hdrop]
    simp
  offset := by
    have hoff := hs.offset
    simp only [Applied.after, hunk_newLines, hunk_oldCount, List.length_append]
    omega

theorem Stands.after_empty {built₀ : List (List Char)} {last : List Char} (ho : p.body.old = [])
    (hb : built ++ p.gap = built₀ ++ [last]) :
    Stands (a.after (p.hunk (i + p.gap.length) j) ((built ++ p.gap).length - 1)) (built₀ ++ p.kept.new ++ [last])
      (i + p.gap.length + p.body.old.length) ps tail where
  lines  := by
    have hlength : (built ++ p.gap).length - 1 = built₀.length := by simp [hb]
    have hlines : a.lines = built₀.map (· ++ ['\n']) ++ ((last ++ ['\n']) ::
        ((oldLines ps).map (· ++ ['\n']) ++ splitlinesKeepends tail)) := by
      simp [hs.split, hb, ho]
    simp only [Applied.after, hunk_newLines, hunk_oldCount, hlength, ho, List.length_nil, Nat.add_zero]
    rw [hlines, List.take_left' (List.length_map _), List.drop_left' (List.length_map _)]
    simp
  offset := by
    have hoff := hs.offset
    have hlength := congrArg List.length hb
    simp only [List.length_append, List.length_cons, List.length_nil] at hlength
    simp only [Applied.after, hunk_newLines, hunk_oldCount, ho, List.length_append, List.length_cons, List.length_nil]
    omega

-- A hunk of the code is a step on what has been built.
theorem Stands.hunk_next (hp : p.Proper) (h : a.hunk (p.hunk (i + p.gap.length) j) = .ok a') :
    ∃ built', next built p = some built' ∧ Stands a' built' (i + p.gap.length + p.body.old.length) ps tail := by
  by_cases ho : p.body.old = []
  case pos =>
    have ⟨hne, ha⟩ := (hs.hunk_empty ho).mp h
    have ⟨built₀, last, hb⟩ := List.eq_nil_or_concat (built ++ p.gap) |>.resolve_left hne
    rw [List.concat_eq_append] at hb
    subst ha
    exact ⟨_, by simp [next, ho, hb], hs.after_empty ho hb⟩
  case neg =>
    have ⟨he, ha⟩ := (hs.hunk_old hp ho).mp h
    subst ha
    exact ⟨_, by rw [next, if_neg ho, if_pos he], hs.after_old⟩

theorem Stands.next_hunk (hp : p.Proper) (h : next built p = some built') :
    ∃ a', a.hunk (p.hunk (i + p.gap.length) j) = .ok a' ∧
      Stands a' built' (i + p.gap.length + p.body.old.length) ps tail := by
  unfold next at h
  split at h
  case isTrue ho  =>
    have ⟨last, hl, h⟩ := Option.map_eq_some_iff.mp h
    have hb := List.dropLast_append_getLast? last hl
    subst h
    have hne : built ++ p.gap ≠ [] := fun he => by simp [he] at hl
    exact ⟨_, (hs.hunk_empty ho).mpr ⟨hne, rfl⟩, hs.after_empty ho hb.symm⟩
  case isFalse ho =>
    split at h
    case isTrue he  =>
      cases h
      exact ⟨_, (hs.hunk_old hp ho).mpr ⟨he, rfl⟩, hs.after_old⟩
    case isFalse he => cases h

end Piece

section Run

variable {a a' : Applied} {built final : List (List Char)} {i j : Nat} {ps : List Piece} {tail : List Char}

theorem Stands.run_next (hs : Stands a built i ps tail) (hp : ∀ p ∈ ps, p.Proper)
    (h : (hunksOf i j ps).foldlM Applied.hunk a = .ok a') :
    ∃ final, ps.foldlM next built = some final ∧ a'.lines.flatten = joinLines final ++ tail := by
  induction ps generalizing a built i j with
  | nil       =>
    cases h
    exact ⟨built, rfl, by simp [hs.lines, oldLines, flatten_splitlinesKeepends, joinLines, List.flatMap_def]⟩
  | cons p ps hi =>
    obtain ⟨hp, hps⟩ := List.forall_mem_cons.mp hp
    obtain ⟨a₁, ha₁, h⟩ := Except.bind_eq_ok_iff.mp h
    obtain ⟨built₁, hb₁, hs₁⟩ := hs.hunk_next hp ha₁
    obtain ⟨final, hf, ht⟩ := hi hs₁ hps h
    exact ⟨final, by rw [List.foldlM_cons, hb₁]; exact hf, ht⟩

variable (j) in
theorem Stands.next_run (hs : Stands a built i ps tail) (hp : ∀ p ∈ ps, p.Proper)
    (h : ps.foldlM next built = some final) : ∃ a', (hunksOf i j ps).foldlM Applied.hunk a = .ok a' := by
  induction ps generalizing a built i j with
  | nil       => exact ⟨a, rfl⟩
  | cons p ps hi =>
    have ⟨hp, hps⟩ := List.forall_mem_cons.mp hp
    have ⟨built₁, hb₁, h⟩ := Option.bind_eq_some_iff.mp h
    have ⟨a₁, ha₁, hs₁⟩ := hs.next_hunk (j := j + p.gap.length) hp hb₁
    have ⟨a', ha'⟩ := hi (j + p.gap.length + p.body.new.length) hs₁ hps h
    exact ⟨a', Except.bind_eq_ok_iff.mpr ⟨a₁, ha₁, ha'⟩⟩

end Run

section Built

variable {built built' new final : List (List Char)} {p : Piece} {ps : List Piece}

theorem append_singleton_eq_cons_iff {α : Type} {xs : List α} {x last : α} :
    xs ++ [last] = x :: xs ↔ x = last ∧ ∀ y ∈ xs, y = last := by
  induction xs generalizing x with
  | nil          => simp [eq_comm]
  | cons y ys hi =>
    simp only [List.cons_append, List.cons.injEq, hi, List.mem_cons, forall_eq_or_imp]
    constructor
    case mp  => exact fun ⟨hx, hy⟩ => ⟨hx ▸ hy.left, hy⟩
    case mpr => exact fun ⟨hx, hy⟩ => ⟨hy.left.trans hx.symm, hy⟩

-- The last line of a text is moved behind more lines.
theorem moved_eq_iff {α : Type} {xs ys before : List α} {last : α} (hl : before.length = xs.length + 1) :
    xs ++ ys ++ [last] = before ++ ys ↔ before = xs ++ [last] ∧ ∀ y ∈ ys, y = last := by
  have ⟨zs, z, hz⟩ := List.eq_nil_or_concat before |>.resolve_left (List.ne_nil_of_length_pos (by omega))
  rw [List.concat_eq_append] at hz
  subst hz
  have hzs : xs.length = zs.length := by simpa using hl.symm
  rw [List.append_assoc, List.append_assoc, List.singleton_append]
  constructor
  case mp  =>
    intro he
    have ⟨hx, hc⟩ := List.append_inj he hzs
    have ⟨hlast, hall⟩ := append_singleton_eq_cons_iff.mp hc
    exact ⟨by rw [hx, hlast], hall⟩
  case mpr =>
    intro ⟨he, hall⟩
    have ⟨hx, hlast⟩ := List.append_inj he hzs.symm
    rw [hx, append_singleton_eq_cons_iff.mpr ⟨(List.cons.inj hlast).left, hall⟩]

theorem kept_new : p.kept.new <+: p.body.new :=
  ((List.takeWhile_prefix _).filter _).map _

theorem kept_old : p.kept.old <+: p.body.old :=
  ((List.takeWhile_prefix _).filter _).map _

-- No line of the hunk reads as a header.
def Piece.Whole (p : Piece) : Prop :=
  ∀ line ∈ p.body.lines, ¬endsHunk line

-- A hunk without old lines repeats the line before it.
def Piece.Repeats (before : List (List Char)) (p : Piece) : Prop :=
  p.body.old = [] → ∃ last, before.getLast? = some last ∧ ∀ line ∈ p.body.new, line = last

def Settled : List (List Char) → List Piece → Prop
  | _, []        => True
  | new, p :: ps => p.Whole ∧ p.Repeats (new ++ p.gap) ∧ Settled (new ++ p.gap ++ p.body.new) ps

theorem Piece.Whole.kept (h : p.Whole) : p.kept = p.body := by
  apply List.takeWhile_eq_self_iff.mpr
  intro line hl
  simpa using h _ (List.mem_map_of_mem hl)

-- A body that is cut has lost an old or a new line.
theorem kept_shorter (h : ¬p.Whole) :
    p.kept.old.length < p.body.old.length ∨ p.kept.new.length < p.body.new.length := by
  have happ : p.kept ++ p.body.dropWhile (fun line => !endsHunk (line.fst.char :: line.snd)) = p.body :=
    List.takeWhile_append_dropWhile
  cases hd : p.body.dropWhile fun line => !endsHunk (line.fst.char :: line.snd) with
  | nil            =>
    refine absurd (fun line hl => ?_) h
    have ⟨m, hm, he⟩ := List.mem_map.mp hl
    simpa [he] using List.dropWhile_eq_nil_iff.mp hd m hm
  | cons line rest =>
    have ⟨mark, text⟩ := line
    have hold := congrArg (fun body => (Body.old body).length) happ
    have hnew := congrArg (fun body => (Body.new body).length) happ
    have hends := List.head?_dropWhile_not (fun line : Mark × List Char => !endsHunk (line.fst.char :: line.snd)) p.body
    rw [hd] at hold hnew hends
    cases mark with
    | context => simp [endsHunk, hunkMark, diffHeaderOld, diffHeaderNew, Mark.char] at hends
    | removed =>
      left
      simp [Body.old] at hold ⊢
      omega
    | added   =>
      right
      simp [Body.new] at hnew ⊢
      omega

theorem length_next (h : next built p = some built') :
    built'.length = built.length + p.gap.length + p.kept.new.length := by
  unfold next at h
  split at h
  case isTrue  =>
    have ⟨last, hl, h⟩ := Option.map_eq_some_iff.mp h
    have hb := congrArg List.length (List.dropLast_append_getLast? last hl)
    subst h
    simp only [List.length_append, List.length_cons, List.length_nil] at hb ⊢
    omega
  case isFalse =>
    have ⟨_, h⟩ := Option.ite_none_right_eq_some.mp h
    cases h
    simp only [List.length_append]

-- What is built is not the new text, and can't become it.
def Behind (built new : List (List Char)) : Prop :=
  built.length < new.length ∨ built.length = new.length ∧ built ≠ new

theorem next_settled (hw : p.Whole) (hr : p.Repeats (new ++ p.gap)) : next new p = some (new ++ p.gap ++ p.body.new) := by
  rw [next, hw.kept]
  split
  case isTrue ho =>
    have ⟨last, hl, hall⟩ := hr ho
    have hb := List.dropLast_append_getLast? last hl
    have hc := append_singleton_eq_cons_iff.mpr ⟨rfl, hall⟩
    rw [hl, Option.map_some, List.append_assoc, hc]
    conv_rhs => rw [← hb, List.append_assoc, List.singleton_append]
  case isFalse   => rw [if_pos rfl]

theorem next_behind (hb : Behind built new) (h : next built p = some built') :
    Behind built' (new ++ p.gap ++ p.body.new) := by
  have hlength := length_next h
  have hle := kept_new (p := p) |>.length_le
  by_cases hlt : built'.length < (new ++ p.gap ++ p.body.new).length
  case pos => exact .inl hlt
  case neg =>
    simp only [List.length_append] at hlt
    cases hb with
    | inl hb => omega
    | inr hb =>
      have ⟨heq, hne⟩ := hb
      have hkept := kept_new (p := p) |>.eq_of_length (by omega)
      refine .inr ⟨by simp only [List.length_append]; omega, fun he => hne ?_⟩
      unfold next at h
      split at h
      case isTrue  =>
        have ⟨last, hl, h⟩ := Option.map_eq_some_iff.mp h
        have hlast := List.dropLast_append_getLast? last hl
        have hcount := congrArg List.length hlast
        subst h
        rw [hkept] at he
        simp only [List.length_append, List.length_cons, List.length_nil] at hcount
        have hmoved := (moved_eq_iff (by rw [List.length_append]; omega)).mp he
        exact (List.append_cancel_right (hlast.symm.trans hmoved.left.symm))
      case isFalse =>
        have ⟨_, h⟩ := Option.ite_none_right_eq_some.mp h
        cases h
        rw [hkept] at he
        exact List.append_cancel_right (List.append_cancel_right he)

theorem next_unsettled (hs : ¬(p.Whole ∧ p.Repeats (new ++ p.gap))) (h : next new p = some built') :
    Behind built' (new ++ p.gap ++ p.body.new) := by
  have hlength := length_next h
  have hle := kept_new (p := p) |>.length_le
  by_cases hlt : p.kept.new.length < p.body.new.length
  case pos =>
    left
    simp only [List.length_append]
    omega
  case neg =>
    have hkept := kept_new (p := p) |>.eq_of_length (by omega)
    refine .inr ⟨by simp only [List.length_append]; omega, fun he => hs ?_⟩
    have hold : ¬p.kept.old.length < p.body.old.length := by
      unfold next at h
      split at h
      case isTrue ho => simp [ho]
      case isFalse   =>
        have ⟨heq, _⟩ := Option.ite_none_right_eq_some.mp h
        simp [heq]
    have hw : p.Whole := not_not.mp fun hw => (kept_shorter hw).elim hold hlt
    refine ⟨hw, fun ho => ?_⟩
    rw [next, if_pos ho] at h
    have ⟨last, hl, h⟩ := Option.map_eq_some_iff.mp h
    have hlast := List.dropLast_append_getLast? last hl
    have hcount := congrArg List.length hlast
    simp only [List.length_append, List.length_cons, List.length_nil] at hcount
    subst h
    rw [hkept] at he
    exact ⟨last, hl, (moved_eq_iff (by rw [List.length_append]; omega)).mp he |>.right⟩

theorem newLines_cons : newLines (p :: ps) = p.gap ++ p.body.new ++ newLines ps :=
  rfl

theorem run_behind (hb : Behind built new) (h : ps.foldlM next built = some final) :
    Behind final (new ++ newLines ps) := by
  induction ps generalizing built new with
  | nil       =>
    cases h
    simpa [newLines] using hb
  | cons p ps hi =>
    have ⟨built₁, hb₁, h⟩ := Option.bind_eq_some_iff.mp h
    have hf := hi (next_behind hb hb₁) h
    rwa [newLines_cons, ← List.append_assoc, ← List.append_assoc]

-- The new text is built where no hunk is cut, and every hunk without old lines repeats the line before it.
theorem run_iff : ps.foldlM next new = some (new ++ newLines ps) ↔ Settled new ps := by
  induction ps generalizing new with
  | nil       => simp [newLines, Settled, pure]
  | cons p ps hi =>
    rw [List.foldlM_cons, newLines_cons, ← List.append_assoc, ← List.append_assoc, Settled]
    constructor
    case mp  =>
      intro h
      have ⟨built, hb, h⟩ := Option.bind_eq_some_iff.mp h
      by_cases hs : p.Whole ∧ p.Repeats (new ++ p.gap)
      case pos =>
        rw [next_settled hs.left hs.right] at hb
        cases hb
        exact ⟨hs.left, hs.right, hi.mp h⟩
      case neg =>
        cases run_behind (next_unsettled hs hb) h with
        | inl hlt => exact absurd hlt (lt_irrefl _)
        | inr hne => exact absurd rfl hne.right
    case mpr =>
      intro ⟨hw, hr, hs⟩
      rw [next_settled hw hr]
      exact hi.mpr hs

variable {q : List Char → Prop}

theorem next_forall (hp : ∀ text ∈ p.texts, q text) (hb : ∀ line ∈ built, q line) (h : next built p = some built') :
    ∀ line ∈ built', q line := by
  have hgap : ∀ line ∈ built ++ p.gap, q line := by
    intro line hl
    cases List.mem_append.mp hl with
    | inl hl => exact hb line hl
    | inr hl => exact hp line (List.mem_append_left _ (List.mem_cons_of_mem _ hl))
  have hnew : ∀ line ∈ p.kept.new, q line := by
    intro line hl
    have ⟨m, hm, he⟩ := List.mem_map.mp (kept_new.subset hl)
    exact hp line (List.mem_append_right _ (he ▸ List.mem_map_of_mem (List.mem_of_mem_filter hm)))
  unfold next at h
  split at h
  case isTrue  =>
    have ⟨last, hl, h⟩ := Option.map_eq_some_iff.mp h
    subst h
    intro line hline
    simp only [List.mem_append, List.mem_singleton] at hline
    obtain (hline | hline) | hline := hline
    · exact hgap line (List.mem_of_mem_dropLast hline)
    · exact hnew line hline
    · exact hline ▸ hgap last (List.mem_of_getLast? hl)
  case isFalse =>
    have ⟨_, h⟩ := Option.ite_none_right_eq_some.mp h
    cases h
    exact fun line hl => (List.mem_append.mp hl).elim (hgap line) (hnew line)

theorem run_forall (hp : ∀ p ∈ ps, ∀ text ∈ p.texts, q text) (hb : ∀ line ∈ built, q line)
    (h : ps.foldlM next built = some final) : ∀ line ∈ final, q line := by
  induction ps generalizing built with
  | nil       =>
    cases h
    exact hb
  | cons p ps hi =>
    have ⟨hp, hps⟩ := List.forall_mem_cons.mp hp
    have ⟨built₁, hb₁, h⟩ := Option.bind_eq_some_iff.mp h
    exact hi hps (next_forall hp hb hb₁) h

theorem mem_newLines (hp : ∀ p ∈ ps, ∀ text ∈ p.texts, q text) : ∀ line ∈ newLines ps, q line := by
  intro line hl
  have ⟨p, hm, hl⟩ := List.mem_flatMap.mp hl
  cases List.mem_append.mp hl with
  | inl hl => exact hp p hm line (List.mem_append_left _ (List.mem_cons_of_mem _ hl))
  | inr hl =>
    have ⟨m, hml, he⟩ := List.mem_map.mp hl
    exact hp p hm line (List.mem_append_right _ (he ▸ List.mem_map_of_mem (List.mem_of_mem_filter hml)))

theorem mem_oldLines (hp : ∀ p ∈ ps, ∀ text ∈ p.texts, q text) : ∀ line ∈ oldLines ps, q line := by
  intro line hl
  have ⟨p, hm, hl⟩ := List.mem_flatMap.mp hl
  cases List.mem_append.mp hl with
  | inl hl => exact hp p hm line (List.mem_append_left _ (List.mem_cons_of_mem _ hl))
  | inr hl =>
    have ⟨m, hml, he⟩ := List.mem_map.mp hl
    exact hp p hm line (List.mem_append_right _ (he ▸ List.mem_map_of_mem (List.mem_of_mem_filter hml)))

end Built

section Written

variable {d : Written} {parsed : ParsedDiff} {a : Applied}

theorem Written.proper_pieces : ∀ p ∈ d.pieces, p.Proper :=
  fun p hp text ht => d.proper text
    (List.mem_append_left _ (List.mem_append_right _ (List.mem_flatMap.mpr ⟨p, hp, ht⟩)))

theorem Written.stands (hc : d.Clean) :
    Stands { lines := splitlinesKeepends d.oldText, offset := 0, added := 0, removed := 0 } [] 0 d.pieces
      (joinLines d.tail) where
  lines  := by
    rw [Written.oldText, joinLines_append, splitlinesKeepends_joinLines (mem_oldLines hc.right), List.nil_append]
  offset := rfl

theorem hunksOf_noNewlineMarker {i j : Nat} {ps : List Piece} :
    (hunksOf i j ps).any DiffHunk.noNewlineMarker = false := by
  induction ps generalizing i j with
  | nil          => rfl
  | cons p ps hi => simp [hunksOf, hi]

theorem dryRunApply_eq {text : List Char} (hn : parsed.hunks ≠ [])
    (hm : parsed.hunks.any DiffHunk.noNewlineMarker = false) (newText : List Char) :
    ((dryRunApply text parsed).valid ∧ (dryRunApply text parsed).newText = newText) ↔
      ∃ a, parsed.hunks.foldlM Applied.hunk { lines := splitlinesKeepends text, offset := 0, added := 0, removed := 0 } =
        .ok a ∧ a.lines.flatten = newText := by
  rw [dryRunApply, if_neg hn, hm, if_neg (by simp)]
  dsimp only
  split
  case h_1 he => simp [he]
  case h_2 he => simp [he]

-- A diff without other line ends takes the old text to the new one where no line of a hunk reads as a header and every
-- hunk without old lines repeats the line before it.
theorem Written.applies_iff (hc : d.Clean) : d.Applies ↔ d.pieces ≠ [] ∧ Settled [] d.pieces := by
  by_cases hp : d.pieces = []
  case pos =>
    constructor
    case mp  =>
      rintro ⟨parsed, h, _⟩
      exact absurd h (Written.parse_nil hc hp parsed)
    case mpr => exact fun h => absurd hp h.left
  case neg =>
    obtain ⟨parsed, hparsed, hhunks⟩ := Written.parse_diff hc hp
    have hne : parsed.hunks ≠ [] := by
      cases hps : d.pieces with
      | nil       => exact absurd hps hp
      | cons p ps => simp [hhunks, hps, hunksOf]
    have hmarker : parsed.hunks.any DiffHunk.noNewlineMarker = false := hhunks ▸ hunksOf_noNewlineMarker
    have hdry := @dryRunApply_eq _ d.oldText hne hmarker d.newText
    rw [hhunks] at hdry
    constructor
    case mp  =>
      rintro ⟨parsed', h, hvalid⟩
      cases hparsed.symm.trans h
      obtain ⟨a, ha, htext⟩ := hdry.mp hvalid
      obtain ⟨final, hf, hflat⟩ := (Written.stands hc).run_next Written.proper_pieces ha
      have hjoin : joinLines final = joinLines (newLines d.pieces) := by
        rw [hflat, Written.newText, joinLines_append] at htext
        exact List.append_cancel_right htext
      have hnewline : ∀ p ∈ d.pieces, ∀ text ∈ p.texts, '\n' ∉ text :=
        fun p hp text ht => (Written.proper_pieces p hp text ht).left
      have hfinal := joinLines_injective (run_forall hnewline (List.forall_mem_nil _) hf) (mem_newLines hnewline)
        hjoin
      exact ⟨hp, run_iff.mp (hfinal ▸ hf)⟩
    case mpr =>
      rintro ⟨_, hs⟩
      have hf := run_iff.mpr hs
      obtain ⟨a, ha⟩ := (Written.stands hc).next_run 0 Written.proper_pieces hf
      obtain ⟨final, hf', hflat⟩ := (Written.stands hc).run_next Written.proper_pieces ha
      cases hf.symm.trans hf'
      refine ⟨parsed, hparsed, hdry.mpr ⟨a, ha, ?_⟩⟩
      rw [hflat, List.nil_append, Written.newText, joinLines_append]

end Written

section Samples

-- One line is changed, and an empty line is doubled.
def writtenSample : Written where
  heads  := [['-', '-', '-', ' ', 'x'], ['+', '+', '+', ' ', 'x']]
  pieces := [
    {
      gap      := [['1']]
      body     := [(.context, ['2']), (.removed, ['-', '3']), (.added, ['+'])]
      heading  := []
      shortOld := false
      shortNew := false
    },
    { gap := [['@', '@'], []], body := [(.added, [])], heading := [' ', 'f'], shortOld := true, shortNew := true }
  ]
  tail   := [['4']]
  proper := by decide
  headed := by decide

theorem writtenSample_clean : writtenSample.Clean := by
  simp only [Written.Clean, writtenSample, Piece.texts, List.forall_mem_cons, List.cons_append, List.forall_mem_append,
    List.forall_mem_map]
  simp [Unbroken, isLineBreak]

theorem writtenSample_applies : writtenSample.Applies := by
  refine (Written.applies_iff writtenSample_clean).mpr ⟨by decide, ?_, ?_, ?_, ?_, trivial⟩
  · simp only [Piece.Whole]
    decide
  · exact fun h => absurd h (by decide)
  · simp only [Piece.Whole]
    decide
  · exact fun _ => ⟨[], by decide, by decide⟩

end Samples

section Accepted

variable {original : List Char} {h : DiffHunk} {hs : List DiffHunk} {a a' : Applied} {pos : Nat}
variable {lines out built rest : List (List Char)} {parsed : ParsedDiff}

-- Each hunk replaces the range in its header, which may end behind the last line, and every other line is kept.
inductive Patched : Nat → List (List Char) → List DiffHunk → List (List Char) → Prop
  | nil {pos : Nat} {lines : List (List Char)} : Patched pos lines [] lines
  | cons {pos : Nat} {gap range rest out : List (List Char)} {h : DiffHunk} {hs : List DiffHunk}
      (start : h.oldStart = pos + gap.length + 1)
      (count : range.length = h.oldCount ∨ rest = [] ∧ range.length < h.oldCount)
      (same : range.map rstripEnds = h.oldLines)
      (left : Patched (pos + gap.length + h.oldCount) rest hs out) :
      Patched pos (gap ++ range ++ rest) (h :: hs) (gap ++ h.newLines.map (· ++ ['\n']) ++ out)

-- The ranges in the headers follow each other.
def Increasing : Nat → List DiffHunk → Prop
  | _, []        => True
  | pos, h :: hs => pos < h.oldStart ∧ Increasing (h.oldStart - 1 + h.oldCount) hs

theorem Patched.increasing (hp : Patched pos lines hs out) : Increasing pos hs := by
  induction hp with
  | nil                       => trivial
  | cons start _ _ _ hi =>
    constructor
    case left  => omega
    case right => simpa [start] using hi

-- The lines built so far stand before those that are left.
theorem patched_of_run (hl : a.lines = built ++ rest) (ho : a.offset + pos = built.length) (hi : Increasing pos hs)
    (hr : hs.foldlM Applied.hunk a = .ok a') : ∃ out, Patched pos rest hs out ∧ a'.lines = built ++ out := by
  induction hs generalizing a built rest pos with
  | nil       =>
    cases hr
    exact ⟨rest, .nil, hl⟩
  | cons h hs ih =>
    have ⟨hlt, hi⟩ := hi
    have ⟨a₁, ha₁, hr⟩ := Except.bind_eq_ok_iff.mp hr
    have ⟨k, hk, hle, hsame, ha⟩ := hunk_eq_ok_iff.mp ha₁
    have ⟨g, hg⟩ := Nat.exists_eq_add_of_lt hlt
    have hkg : k = built.length + g := by omega
    subst ha hkg
    rw [hl, List.length_append] at hle
    have hgap : (rest.take g).length = g := List.length_take_of_le (by omega)
    rw [hl, List.drop_append, List.drop_eq_nil_of_le (Nat.le_add_right _ _), List.nil_append, Nat.add_sub_cancel_left]
      at hsame
    have hlines : (a.after h (built.length + g)).lines =
        (built ++ rest.take g ++ h.newLines.map (· ++ ['\n'])) ++ (rest.drop g).drop h.oldCount := by
      have htake : a.lines.take (built.length + g) = built ++ rest.take g := by
        rw [hl, List.take_append, List.take_of_length_le (Nat.le_add_right _ _), Nat.add_sub_cancel_left]
      have hdrop : a.lines.drop (built.length + g + h.oldCount) = (rest.drop g).drop h.oldCount := by
        rw [hl, List.drop_append, List.drop_eq_nil_of_le (by omega), List.nil_append, List.drop_drop]
        congr 1
        omega
      rw [Applied.after, htake, hdrop]
    have hnext : h.oldStart - 1 + h.oldCount = pos + (rest.take g).length + h.oldCount := by omega
    have ⟨out, hp, hout⟩ := ih hlines (by
      simp only [Applied.after, List.length_append, List.length_map, hnext]
      push_cast
      omega) hi hr
    have hrest : rest = rest.take g ++ (rest.drop g).take h.oldCount ++ (rest.drop g).drop h.oldCount := by
      rw [List.append_assoc, List.take_append_drop, List.take_append_drop]
    refine ⟨rest.take g ++ h.newLines.map (· ++ ['\n']) ++ out, ?_, by rw [hout]; simp⟩
    conv =>
      arg 2
      rw [hrest]
    refine .cons (by omega) ?_ hsame (hnext ▸ hp)
    rw [List.length_take, List.drop_eq_nil_iff]
    omega

theorem dryRunApply_valid (hv : (dryRunApply original parsed).valid) :
    ∃ a, parsed.hunks.foldlM Applied.hunk { lines := splitlinesKeepends original, offset := 0, added := 0, removed := 0 } =
      .ok a ∧ (dryRunApply original parsed).newText = a.lines.flatten := by
  unfold dryRunApply at hv ⊢
  split at hv
  case isTrue      => cases hv
  case isFalse hne =>
    split at hv
    case isTrue     => cases hv
    case isFalse hm =>
      rw [if_neg hne, if_neg hm]
      dsimp only at hv ⊢
      split at hv
      case h_1       => cases hv
      case h_2 a ha  =>
        simp only [ha]
        exact ⟨a, rfl, rfl⟩

variable {lower : String → String} {path diff : List Char} {originalText : Option (List Char)} {fileExists : Bool}

theorem validate_modify (hv : (validatePatchForPath lower path "modify" diff originalText fileExists).valid) :
    ∃ original parsed, originalText = some original ∧ parseUnifiedDiff diff = .ok parsed ∧
      (dryRunApply original parsed).valid ∧
      (validatePatchForPath lower path "modify" diff originalText fileExists).dryRun =
        some (dryRunApply original parsed) := by
  unfold validatePatchForPath at hv ⊢
  rw [if_neg (by decide)] at hv ⊢
  cases hparsed : parseUnifiedDiff diff with
  | error error => simp [hparsed, ValidationResult.rejected] at hv
  | ok parsed   =>
    simp only [hparsed] at hv ⊢
    split at hv
    case isTrue      => cases hv
    case isFalse hpe =>
      rw [if_neg (by simp), if_neg (by simp), if_pos trivial] at hv
      rw [if_neg hpe, if_neg (by simp), if_neg (by simp), if_pos trivial]
      split at hv
      case isTrue     => cases hv
      case isFalse hf =>
        rw [if_neg hf]
        cases originalText with
        | none          => cases hv
        | some original =>
          dsimp only at hv ⊢
          split at hv
          case isTrue     => cases hv
          case isFalse hd =>
            rw [if_neg hd]
            exact ⟨original, parsed, rfl, rfl, not_not.mp hd, rfl⟩

end Accepted
end Tools.UnifiedDiff
