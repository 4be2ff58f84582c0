import Mathlib.Tactic.Linarith
import Mathlib.Tactic.Positivity
import Mathlib.Algebra.Order.Field.Rat
import BridleModel.Library.Orders
import BridleModel.ProjectMap.Boundary

namespace ProjectMap.Boundary

open Python

section History

-- A commit as `git log --name-only --pretty=format:%H` prints it. The names are as they are printed, so that none has a
-- line break of its own.
structure Commit where
  hash     : List Char
  files    : List (List Char)
  hash_ok  : isCommitLine hash
  files_ok : ∀ file ∈ files, Unbroken file ∧ stripChars file ≠ [] ∧ isCommitLine file = false

def Commit.text (commit : Commit) : List Char :=
  if commit.files = [] then commit.hash else joinLines (commit.hash :: commit.files)

-- The output of `git log`
def log : List Commit → List Char
  | []                => []
  | [commit]          => commit.text
  | commit :: commits => commit.text ++ '\n' :: log commits

def Commit.paths (commit : Commit) : List String :=
  commit.files.map entryOf

variable {commit : Commit} {commits : List Commit} {line : List Char} {g : Grouping}

theorem toNat_of_hexValue {c : Char} (h : (hexValue c).isSome) : 48 ≤ c.toNat ∧ c.toNat ≤ 102 := by
  unfold hexValue at h
  split at h
  case isTrue hd =>
    simp only [Char.isDigit, Bool.and_eq_true, decide_eq_true_eq, ge_iff_le, UInt32.le_iff_toNat_le] at hd
    exact ⟨hd.left, hd.right.trans (by decide)⟩
  split at h
  case isTrue hd =>
    simp only [Char.le_def, UInt32.le_iff_toNat_le] at hd
    exact ⟨le_trans (by decide) hd.left, hd.right.trans (by decide)⟩
  split at h
  case isTrue hd =>
    simp only [Char.le_def, UInt32.le_iff_toNat_le] at hd
    exact ⟨le_trans (by decide) hd.left, hd.right.trans (by decide)⟩
  case isFalse => cases h

theorem unbroken_commitLine (h : isCommitLine line) : Unbroken line := by
  intro c hc
  have hs := toNat_of_hexValue (List.all_eq_true.mp (of_decide_eq_true h).right c hc)
  simp only [isLineBreak, decide_eq_false_iff_not]
  omega

theorem Commit.unbroken (commit : Commit) : ∀ line ∈ commit.hash :: commit.files, Unbroken line :=
  List.forall_mem_cons.mpr ⟨unbroken_commitLine commit.hash_ok, fun file hf => (commit.files_ok file hf).left⟩

theorem hash_ne_nil (commit : Commit) : commit.hash ≠ [] := by
  intro h
  have := (of_decide_eq_true commit.hash_ok).left
  simp [h] at this

theorem splitlines_text : splitlines commit.text = commit.hash :: commit.files := by
  unfold Commit.text
  split
  case isTrue h  => rw [splitlines_unbroken (unbroken_commitLine commit.hash_ok) (hash_ne_nil commit), h]
  case isFalse h => exact splitlines_joinLines commit.unbroken

-- The empty line that ends the names of a commit is one line more.
theorem splitlines_text_append {text : List Char} : ∃ blank : List (List Char), (∀ line ∈ blank, line = []) ∧
    splitlines (commit.text ++ '\n' :: text) = commit.hash :: commit.files ++ (blank ++ splitlines text) := by
  have hu := commit.unbroken
  unfold Commit.text
  split
  case isTrue h =>
    refine ⟨[], fun _ => (List.not_mem_nil · |>.elim), ?_⟩
    rw [h] at hu ⊢
    have hs : splitlines (joinLines [commit.hash] ++ text) = [commit.hash] ++ splitlines text := splitlines_append hu
    simpa [joinLines] using hs
  case isFalse h =>
    refine ⟨[[]], by simp, ?_⟩
    have hb : ∀ line ∈ commit.hash :: commit.files ++ [[]], Unbroken line := by
      intro line hl
      cases List.mem_append.mp hl with
      | inl hl => exact hu line hl
      | inr hl =>
        rw [List.mem_singleton.mp hl]
        exact fun _ hc => absurd hc List.not_mem_nil
    have hs : splitlines (joinLines (commit.hash :: commit.files ++ [[]]) ++ text) =
        commit.hash :: commit.files ++ [[]] ++ splitlines text := splitlines_append hb
    rw [joinLines_append, List.append_assoc, List.append_assoc] at hs
    exact hs

theorem read_blank : g.read [] = g := by
  rw [Grouping.read, if_neg (by decide), if_pos (by decide)]

theorem foldl_read_blank {blank : List (List Char)} (h : ∀ line ∈ blank, line = []) :
    blank.foldl Grouping.read g = g := by
  induction blank with
  | nil            => rfl
  | cons line blank hi =>
    have ⟨hl, hb⟩ := List.forall_mem_cons.mp h
    rw [List.foldl_cons, hl, read_blank, hi hb]

theorem foldl_read_files {files : List (List Char)}
    (h : ∀ file ∈ files, Unbroken file ∧ stripChars file ≠ [] ∧ isCommitLine file = false) :
    files.foldl Grouping.read g = { g with current := g.current ++ files.map entryOf } := by
  induction files generalizing g with
  | nil             => simp
  | cons file files hi =>
    have ⟨⟨_, hs, hc⟩, hf⟩ := List.forall_mem_cons.mp h
    rw [List.foldl_cons, Grouping.read, if_neg (by simp [hc]), if_neg hs, hi hf]
    simp

theorem foldl_read_commit :
    (commit.hash :: commit.files).foldl Grouping.read g = { commits := g.close, current := commit.paths } := by
  rw [List.foldl_cons, Grouping.read, if_pos commit.hash_ok, foldl_read_files commit.files_ok]
  simp [Commit.paths]

theorem close_commit :
    (⟨g.close, commit.paths⟩ : Grouping).close = g.close ++ [commit.paths].filter (· ≠ []) := by
  unfold Grouping.close
  by_cases h : commit.paths = [] <;> simp [h]

theorem close_log :
    ((splitlines (log commits)).foldl Grouping.read g).close = g.close ++ (commits.map Commit.paths).filter (· ≠ []) := by
  induction commits generalizing g with
  | nil               => simp [log, splitlines, splitlinesKeepends]
  | cons commit commits hi =>
    cases commits with
    | nil            => rw [log, splitlines_text, foldl_read_commit, close_commit, List.map_singleton]
    | cons next rest =>
      obtain ⟨blank, hb, hs⟩ := @splitlines_text_append commit (log (next :: rest))
      rw [log, hs, List.foldl_append, foldl_read_commit, List.foldl_append, foldl_read_blank hb, hi, close_commit,
        List.append_assoc, ← List.filter_append]
      · rfl
      · exact List.cons_ne_nil _ _

-- The commits that name a file, each with its files
theorem commitsOf_log : commitsOf (log commits) = (commits.map Commit.paths).filter (· ≠ []) :=
  close_log

end History

section Cochange

variable {a b : String} {files : List String} {commits : List Commit} {rows : List CochangeRow} {row : CochangeRow}

theorem mem_unique : a ∈ unique files ↔ a ∈ files := by
  rw [unique, List.mem_insertionSort, List.mem_dedup]

theorem pairwise_unique : (unique files).Pairwise (· < ·) := by
  have hs := List.pairwise_insertionSort (· ≤ ·) files.dedup
  have hn : (unique files).Nodup := (List.perm_insertionSort (· ≤ ·) _).nodup_iff.mpr files.nodup_dedup
  exact hs.imp₂ (fun _ _ => lt_of_le_of_ne) hn

theorem map_pairKey (h : ∀ b ∈ files, a < b) : files.map (pairKey a) = files.map (a, ·) :=
  List.map_congr_left fun b hb => if_pos (h b hb)

theorem mem_pairs (h : files.Pairwise (· < ·)) : (a, b) ∈ pairs files ↔ a < b ∧ a ∈ files ∧ b ∈ files := by
  induction files with
  | nil             => simp [pairs]
  | cons c files hi =>
    have ⟨hc, hf⟩ := List.pairwise_cons.mp h
    rw [pairs, map_pairKey hc, List.mem_append, hi hf]
    simp only [List.mem_map, Prod.mk.injEq, List.mem_cons]
    constructor
    case mp =>
      intro h
      cases h with
      | inl h =>
        have ⟨d, hd, ha, hb⟩ := h
        exact ⟨ha ▸ hb ▸ hc d hd, .inl ha.symm, .inr (hb ▸ hd)⟩
      | inr h => exact ⟨h.left, .inr h.right.left, .inr h.right.right⟩
    case mpr =>
      intro ⟨hlt, ha, hb⟩
      cases hb with
      | inl hb =>
        cases ha with
        | inl ha => exact absurd hlt (ha ▸ hb ▸ lt_irrefl _)
        | inr ha => exact absurd (hlt.trans (hb ▸ hc a ha)) (lt_irrefl _)
      | inr hb =>
        cases ha with
        | inl ha => exact .inl ⟨b, hb, ha.symm, rfl⟩
        | inr ha => exact .inr ⟨hlt, ha, hb⟩

theorem nodup_pairs (h : files.Pairwise (· < ·)) : (pairs files).Nodup := by
  induction files with
  | nil             => exact .nil
  | cons c files hi =>
    have ⟨hc, hf⟩ := List.pairwise_cons.mp h
    rw [pairs, map_pairKey hc]
    refine List.nodup_append.mpr ⟨?_, hi hf, ?_⟩
    case refine_1 =>
      have hn : files.Nodup := hf.imp fun hlt => hlt.ne
      exact hn.map fun _ _ he => (Prod.mk.inj he).right
    case refine_2 =>
      intro p hp q hq he
      have ⟨d, _, hd⟩ := List.mem_map.mp hp
      have ⟨_, hm, _⟩ := (mem_pairs (a := q.fst) (b := q.snd) hf).mp hq
      rw [← he, ← hd] at hm
      exact lt_irrefl _ (hc c hm)

-- How many commits name both paths, and how many one of them at least
def both (commits : List Commit) (a b : String) : Nat :=
  commits.countP fun commit => a ∈ commit.paths ∧ b ∈ commit.paths

def either (commits : List Commit) (a b : String) : Nat :=
  commits.countP fun commit => a ∈ commit.paths ∨ b ∈ commit.paths

def naming (commits : List Commit) (a : String) : Nat :=
  commits.countP fun commit => a ∈ commit.paths

variable {commit : Commit}

theorem both_cons : both (commit :: commits) a b =
    both commits a b + if a ∈ commit.paths ∧ b ∈ commit.paths then 1 else 0 := by
  simp only [both, List.countP_cons, decide_eq_true_eq]

theorem either_cons : either (commit :: commits) a b =
    either commits a b + if a ∈ commit.paths ∨ b ∈ commit.paths then 1 else 0 := by
  simp only [either, List.countP_cons, decide_eq_true_eq]

theorem naming_cons : naming (commit :: commits) a = naming commits a + if a ∈ commit.paths then 1 else 0 := by
  simp only [naming, List.countP_cons, decide_eq_true_eq]

theorem naming_add_naming : naming commits a + naming commits b = either commits a b + both commits a b := by
  induction commits with
  | nil                    => rfl
  | cons commit commits hi =>
    rw [naming_cons, naming_cons, either_cons, both_cons]
    by_cases ha : a ∈ commit.paths <;> by_cases hb : b ∈ commit.paths <;> simp [ha, hb] <;> omega

theorem both_le_either : both commits a b ≤ either commits a b :=
  List.countP_mono_left fun _ _ h => by
    simp only [decide_eq_true_eq] at h ⊢
    exact .inl h.left

theorem both_pos : 0 < both commits a b ↔ ∃ commit ∈ commits, a ∈ commit.paths ∧ b ∈ commit.paths := by
  simp [both, List.countP_pos_iff]

theorem both_eq_either : both commits a b = either commits a b ↔
    ∀ commit ∈ commits, a ∈ commit.paths ↔ b ∈ commit.paths := by
  induction commits with
  | nil                    => simp [both, either]
  | cons commit commits hi =>
    have hle : both commits a b ≤ either commits a b := both_le_either
    rw [List.forall_mem_cons, ← hi, both_cons, either_cons]
    by_cases ha : a ∈ commit.paths <;> by_cases hb : b ∈ commit.paths <;> simp [ha, hb] <;> omega

-- The weight of two paths is the Jaccard index of the commits that name them.
def rowOf (commits : List Commit) (a b : String) : CochangeRow where
  pathA   := a
  pathB   := b
  coCount := both commits a b
  supA    := naming commits a
  supB    := naming commits b
  weight  := (both commits a b : ℚ) / either commits a b

theorem count_support : Tally.count (support (commitsOf (log commits))) a = naming commits a := by
  rw [support, commitsOf_log, Tally.count_flatMap (p := fun files => a ∈ files)
    (fun _ _ => pairwise_unique.imp fun h => h.ne) (fun _ _ => mem_unique), List.countP_filter, List.countP_map, naming]
  refine List.countP_congr fun commit _ => ?_
  simp only [Function.comp_apply, Bool.and_eq_true, decide_eq_true_eq]
  exact ⟨And.left, fun h => ⟨h, List.ne_nil_of_mem h⟩⟩

theorem count_coCounts (h : a < b) : Tally.count (coCounts (commitsOf (log commits))) (a, b) = both commits a b := by
  rw [coCounts, commitsOf_log, Tally.count_flatMap (p := fun files => a ∈ files ∧ b ∈ files)
    (fun _ _ => nodup_pairs pairwise_unique) (fun _ _ => by simp only [mem_pairs pairwise_unique, mem_unique, h, true_and]),
    List.countP_filter, List.countP_map, both]
  refine List.countP_congr fun commit _ => ?_
  simp only [Function.comp_apply, Bool.and_eq_true, decide_eq_true_eq]
  exact ⟨And.left, fun h => ⟨h, List.ne_nil_of_mem h.left⟩⟩

theorem mem_coCounts {n : Nat} : ((a, b), n) ∈ coCounts (commitsOf (log commits)) ↔
    a < b ∧ 0 < both commits a b ∧ n = both commits a b := by
  rw [coCounts, Tally.mem_tally]
  constructor
  case mp =>
    intro ⟨hm, hn⟩
    have ⟨files, _, hp⟩ := List.mem_flatMap.mp hm
    have hlt := ((mem_pairs pairwise_unique).mp hp).left
    have hc : Tally.count (coCounts (commitsOf (log commits))) (a, b) = both commits a b := count_coCounts hlt
    exact ⟨hlt, hc ▸ Tally.count_pos.mpr hm, hn.symm.trans hc⟩
  case mpr =>
    intro ⟨hlt, hpos, hn⟩
    have hc : Tally.count (coCounts (commitsOf (log commits))) (a, b) = both commits a b := count_coCounts hlt
    exact ⟨Tally.count_pos.mp (hc.symm ▸ hpos), hc.trans hn.symm⟩

theorem cochangeRow_eq :
    cochangeRow (support (commitsOf (log commits))) ((a, b), both commits a b) = rowOf commits a b := by
  have hsum : ((naming commits a : ℕ) : ℤ) + naming commits b - both commits a b = either commits a b := by
    have hn : naming commits a + naming commits b = either commits a b + both commits a b := naming_add_naming
    omega
  simp only [cochangeRow, count_support, hsum, rowOf, CochangeRow.mk.injEq, true_and]
  split
  case isTrue h  => simp [Int.natCast_eq_zero.mp h]
  case isFalse h => rfl

theorem mem_refreshCochange : row ∈ (refreshCochange (some (String.ofList (log commits))) rows).fst ↔
    row.pathA < row.pathB ∧ 0 < both commits row.pathA row.pathB ∧ row = rowOf commits row.pathA row.pathB := by
  rw [refreshCochange]
  simp only [String.toList_ofList, List.mem_map]
  constructor
  case mp =>
    intro ⟨⟨⟨a, b⟩, n⟩, hm, hr⟩
    have ⟨hlt, hpos, hn⟩ := mem_coCounts.mp hm
    rw [hn, cochangeRow_eq] at hr
    subst hr
    exact ⟨hlt, hpos, rfl⟩
  case mpr =>
    intro ⟨hlt, hpos, hr⟩
    exact ⟨((row.pathA, row.pathB), _), mem_coCounts.mpr ⟨hlt, hpos, rfl⟩, cochangeRow_eq.trans hr.symm⟩

theorem weight_rowOf (h : 0 < both commits a b) : 0 < (rowOf commits a b).weight ∧ (rowOf commits a b).weight ≤ 1 ∧
    ((rowOf commits a b).weight = 1 ↔ ∀ commit ∈ commits, a ∈ commit.paths ↔ b ∈ commit.paths) := by
  have hle : both commits a b ≤ either commits a b := both_le_either
  have hpos : (0 : ℚ) < both commits a b := by exact_mod_cast h
  have hpos' : (0 : ℚ) < either commits a b := by exact_mod_cast h.trans_le hle
  have hle' : (both commits a b : ℚ) ≤ either commits a b := by exact_mod_cast hle
  refine ⟨div_pos hpos hpos', (div_le_one hpos').mpr hle', ?_⟩
  rw [rowOf, div_eq_one_iff_eq hpos'.ne', Nat.cast_inj, both_eq_either]

theorem cochange_mined (commits : List Commit) (rows : List CochangeRow) :
    let mined := refreshCochange (some (String.ofList (log commits))) rows
    mined.snd = mined.fst.length ∧
    (mined.fst.map fun row => (row.pathA, row.pathB)).Nodup ∧
    (∀ row, row ∈ mined.fst ↔ row.pathA < row.pathB ∧
      (∃ commit ∈ commits, row.pathA ∈ commit.paths ∧ row.pathB ∈ commit.paths) ∧
      row = rowOf commits row.pathA row.pathB) ∧
    ∀ row ∈ mined.fst, 0 < row.weight ∧ row.weight ≤ 1 ∧
      (row.weight = 1 ↔ ∀ commit ∈ commits, row.pathA ∈ commit.paths ↔ row.pathB ∈ commit.paths) := by
  intro mined
  refine ⟨?_, ?_, ?_, ?_⟩
  · exact (List.length_map _).symm
  · simp only [mined, refreshCochange, List.map_map]
    exact Tally.nodup_tally
  · intro row
    rw [mem_refreshCochange, both_pos]
  · intro row hr
    have ⟨_, hpos, he⟩ := mem_refreshCochange.mp hr
    rw [he]
    exact weight_rowOf hpos

end Cochange

section Conflicts

variable {listed rows : List CochangeRow} {row : CochangeRow} {threshold : ℚ} {limit : Nat} {conflict : Conflict} {id : String}

theorem listBoundaryConflicts_eq (h : 1 ≤ limit) (h' : limit ≤ 50) :
    listBoundaryConflicts limit listed = (listed.take limit).filterMap conflict? := by
  rw [listBoundaryConflicts, Nat.min_eq_left h', Nat.max_eq_right h, List.take_of_length_le]
  exact (List.length_filterMap_le ..).trans (List.length_take_le ..)

theorem conflict?_eq_some_iff : conflict? row = some conflict ↔
    moduleForPath row.pathA ≠ moduleForPath row.pathB ∧
      conflict = ⟨row.pathA, row.pathB, moduleForPath row.pathA, moduleForPath row.pathB, row.weight⟩ := by
  simp only [conflict?]
  split
  case isTrue h  => simp [h]
  case isFalse h => simp [h, eq_comm]

theorem mem_debtNodeIds : id ∈ debtNodeIds threshold listed ↔
    ∃ row ∈ listed.take 20, moduleForPath row.pathA ≠ moduleForPath row.pathB ∧ threshold ≤ row.weight ∧
      id = "debt:" ++ row.pathA ++ ":" ++ row.pathB := by
  rw [debtNodeIds, listBoundaryConflicts_eq (by decide) (by decide)]
  simp only [List.mem_map, List.mem_filter, List.mem_filterMap, decide_eq_true_eq]
  constructor
  case mp =>
    intro ⟨conflict, ⟨⟨row, hr, hc⟩, ht⟩, hid⟩
    have ⟨hn, he⟩ := conflict?_eq_some_iff.mp hc
    subst he
    exact ⟨row, hr, hn, ht, hid.symm⟩
  case mpr =>
    intro ⟨row, hr, hn, ht, hid⟩
    exact ⟨_, ⟨⟨row, hr, conflict?_eq_some_iff.mpr ⟨hn, rfl⟩⟩, ht⟩, hid.symm⟩

-- A row that the first rows leave out comes after that many rows of at least its weight.
theorem Listed.left_out (h : Listed rows listed) (hr : row ∈ rows) (hn : row ∉ listed.take limit) :
    (listed.take limit).length = limit ∧ ∀ row' ∈ listed.take limit, row' ∈ rows ∧ row.weight ≤ row'.weight := by
  have hm : row ∈ listed.drop limit := by
    have hl : row ∈ listed.take limit ++ listed.drop limit := by
      rw [List.take_append_drop]
      exact h.perm.mem_iff.mpr hr
    exact (List.mem_append.mp hl).resolve_left hn
  constructor
  case left =>
    rw [List.length_take, Nat.min_eq_left]
    by_contra hlt
    rw [List.drop_of_length_le (by omega)] at hm
    cases hm
  case right =>
    intro row' hr'
    have hs := h.sorted
    rw [← List.take_append_drop limit listed] at hs
    exact ⟨h.perm.mem_iff.mp (List.mem_of_mem_take hr'), (List.pairwise_append.mp hs).right.right row' hr' row hm⟩

theorem debts_found (commits : List Commit) (rows listed : List CochangeRow) (threshold : ℚ)
    (h : Listed (refreshCochange (some (String.ofList (log commits))) rows).fst listed) :
    (debtNodeIds threshold listed).length ≤ 20 ∧
    (∀ id ∈ debtNodeIds threshold listed, ∃ a b, id = "debt:" ++ a ++ ":" ++ b ∧ a < b ∧
      moduleForPath a ≠ moduleForPath b ∧ 0 < both commits a b ∧
      threshold ≤ (both commits a b : ℚ) / either commits a b) ∧
    ∀ a b, a < b → moduleForPath a ≠ moduleForPath b → 0 < both commits a b →
      threshold ≤ (both commits a b : ℚ) / either commits a b →
      "debt:" ++ a ++ ":" ++ b ∈ debtNodeIds threshold listed ∨
      (listed.take 20).length = 20 ∧ ∀ row ∈ listed.take 20, ∃ c d, row = rowOf commits c d ∧ (c, d) ≠ (a, b) ∧
        (both commits a b : ℚ) / either commits a b ≤ (both commits c d : ℚ) / either commits c d := by
  have hmined : ∀ row ∈ listed, ∃ a b, a < b ∧ 0 < both commits a b ∧ row = rowOf commits a b := by
    intro row hr
    have ⟨hlt, hpos, he⟩ := mem_refreshCochange.mp (h.perm.mem_iff.mp hr)
    exact ⟨_, _, hlt, hpos, he⟩
  refine ⟨?_, ?_, ?_⟩
  · rw [debtNodeIds, List.length_map]
    exact (List.length_filter_le ..).trans (List.length_take_le ..)
  · intro id hid
    have ⟨row, hr, hm, ht, he⟩ := mem_debtNodeIds.mp hid
    have ⟨a, b, hlt, hpos, hrow⟩ := hmined row (List.mem_of_mem_take hr)
    subst hrow
    exact ⟨a, b, he, hlt, hm, hpos, ht⟩
  · intro a b hlt hm hpos ht
    by_cases hr : rowOf commits a b ∈ listed.take 20
    case pos => exact .inl (mem_debtNodeIds.mpr ⟨_, hr, hm, ht, rfl⟩)
    case neg =>
      have hrow : rowOf commits a b ∈ (refreshCochange (some (String.ofList (log commits))) rows).fst :=
        mem_refreshCochange.mpr ⟨hlt, hpos, rfl⟩
      have ⟨hl, hw⟩ := h.left_out hrow hr
      refine .inr ⟨hl, fun row hrow => ?_⟩
      have ⟨c, d, _, _, he⟩ := hmined row (List.mem_of_mem_take hrow)
      subst he
      refine ⟨c, d, rfl, ?_, (hw _ hrow).right⟩
      intro hcd
      have ⟨hc, hd⟩ := Prod.mk.inj hcd
      rw [hc, hd] at hrow
      exact hr hrow

end Conflicts

section Sample

def sampleCommit : Commit where
  hash     := List.replicate 40 'a'
  files    := [['w', '/', 'x'], ['b']]
  hash_ok  := by decide +kernel
  files_ok := by
    refine List.forall_mem_cons.mpr ⟨⟨?_, by decide, by decide⟩, List.forall_mem_singleton.mpr ⟨?_, by decide, by decide⟩⟩
    · simp [Unbroken, isLineBreak]
    · simp [Unbroken, isLineBreak]

def sampleRow : CochangeRow where
  pathA   := "b"
  pathB   := "w/x"
  coCount := 1
  supA    := 1
  supB    := 1
  weight  := 1

theorem debts_found_sample : "debt:" ++ "b" ++ ":" ++ "w/x" ∈ debtNodeIds (1 / 2) [sampleRow] := by
  have hmined : (refreshCochange (some (String.ofList (log [sampleCommit]))) []).fst = [sampleRow] := by
    decide +kernel
  have ⟨_, _, h⟩ := debts_found [sampleCommit] [] [sampleRow] (1 / 2) ⟨hmined ▸ .refl _, List.pairwise_singleton ..⟩
  cases h "b" "w/x" (by decide +kernel) (by decide +kernel) (by decide +kernel) (by decide +kernel) with
  | inl h => exact h
  | inr h => cases h.left

end Sample
end ProjectMap.Boundary
