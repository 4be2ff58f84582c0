import BridleModel.Container.Patches
import BridleModel.Container.Theorems.Candidate
import BridleModel.Library.Pairing
import BridleModel.Library.Updates

namespace Container

variable {base candidate there here : Hashes} {writeSet paths : List String} {path : String} {file : String × String}

section Files

theorem mem_missingFrom : file ∈ missingFrom paths there here ↔
    file.fst ∈ paths ∧ Assoc.get there file.fst = some file.snd ∧ Assoc.get here file.fst = none := by
  rw [missingFrom, List.mem_filterMap]
  constructor
  · rintro ⟨path, hp, h⟩
    simp only [Option.ite_none_left_eq_some, Option.map_eq_some_iff] at h
    obtain ⟨hh, digest, ht, rfl⟩ := h
    exact ⟨hp, ht, Option.not_isSome_iff_eq_none.mp hh⟩
  · rintro ⟨hp, ht, hh⟩
    exact ⟨file.fst, hp, by simp [ht, hh]⟩

theorem missingFrom_sublist : ((missingFrom paths there here).map (·.fst)).Sublist paths := by
  induction paths with
  | nil           => exact List.Sublist.refl _
  | cons path _ hi =>
    rw [missingFrom, List.filterMap_cons]
    split
    case h_1 => exact hi.cons path
    case h_2 h =>
      simp only [Option.ite_none_left_eq_some, Option.map_eq_some_iff] at h
      obtain ⟨_, _, _, rfl⟩ := h
      exact hi.cons_cons path

theorem nodup_sortedSet (ids : List String) : (sortedSet ids).Nodup :=
  (List.perm_insertionSort _ _).nodup_iff.mpr ids.nodup_dedup

theorem sortedSet_lt (ids : List String) : (sortedSet ids).Pairwise (· < ·) :=
  (List.pairwise_insertionSort (· ≤ ·) ids.dedup).imp₂ (fun _ _ hle hne => lt_of_le_of_ne hle hne) (nodup_sortedSet ids)

def allPaths (base candidate : Hashes) (writeSet : List String) : List String :=
  sortedSet (writeSet ++ base.map (·.fst) ++ candidate.map (·.fst))

theorem mem_keys_of_get {hashes : Hashes} {digest : String} (h : Assoc.get hashes path = some digest) :
    path ∈ hashes.map (·.fst) :=
  List.mem_map.mpr ⟨_, Assoc.mem_of_get h, rfl⟩

theorem mem_allPaths_of_base {digest : String} (h : Assoc.get base path = some digest) :
    path ∈ allPaths base candidate writeSet :=
  mem_sortedSet.mpr (List.mem_append_left _ (List.mem_append_right _ (mem_keys_of_get h)))

theorem mem_allPaths_of_candidate {digest : String} (h : Assoc.get candidate path = some digest) :
    path ∈ allPaths base candidate writeSet :=
  mem_sortedSet.mpr (List.mem_append_right _ (mem_keys_of_get h))

theorem mem_allPaths_of_ne (h : Assoc.get base path ≠ Assoc.get candidate path) :
    path ∈ allPaths base candidate writeSet := by
  cases hb : Assoc.get base path with
  | some _ => exact mem_allPaths_of_base hb
  | none   =>
    cases hc : Assoc.get candidate path with
    | some _ => exact mem_allPaths_of_candidate hc
    | none   => exact absurd (hb.trans hc.symm) h

end Files

section Renames

-- The files of the baseline that are gone, and those of the candidate that are new
def removedFiles (base candidate : Hashes) (writeSet : List String) : Hashes :=
  missingFrom (allPaths base candidate writeSet) base candidate

def addedFiles (base candidate : Hashes) (writeSet : List String) : Hashes :=
  missingFrom (allPaths base candidate writeSet) candidate base

def sameDigest (old new : String × String) : Bool :=
  new.snd = old.snd

def renamed (p : (String × String) × (String × String)) : Patch where
  path          := p.snd.fst
  changeType    := .rename
  oldPath       := some p.fst.fst
  baseHash      := some p.fst.snd
  candidateHash := some p.fst.snd

abbrev renamePairs (base candidate : Hashes) (writeSet : List String) : List ((String × String) × (String × String)) :=
  Pairing.pairing sameDigest (·.fst) (addedFiles base candidate writeSet) (removedFiles base candidate writeSet)

theorem addRename_map {added : Hashes} {pairs : List ((String × String) × (String × String))} :
    addRename added (pairs.map renamed) file = (Pairing.add sameDigest (·.fst) added pairs file).map renamed := by
  have hf : added.filter (fun new => new.snd = file.snd ∧ new.fst ∉ (pairs.map renamed).map (·.path)) =
      Pairing.free sameDigest (·.fst) added pairs file := by
    rw [Pairing.free, List.map_map]
    refine List.filter_congr fun new _ => decide_eq_decide.mpr ?_
    simp [sameDigest, renamed, Function.comp_def]
  rw [addRename, Pairing.add, hf]
  cases Pairing.free sameDigest (·.fst) added pairs file with
  | nil      => rfl
  | cons _ _ => rw [List.map_append]; rfl

theorem foldl_addRename {added removed : Hashes} :
    removed.foldl (addRename added) [] = (Pairing.pairing sameDigest (·.fst) added removed).map renamed := by
  induction removed using List.reverseRecOn with
  | nil                     => rfl
  | append_singleton _ _ hi =>
    rw [List.foldl_append, hi, Pairing.pairing_concat]
    exact addRename_map

theorem removed_of_pair {p : (String × String) × (String × String)} (h : p ∈ renamePairs base candidate writeSet) :
    Assoc.get base p.fst.fst = some p.fst.snd ∧ Assoc.get candidate p.fst.fst = none ∧
      Assoc.get candidate p.snd.fst = some p.fst.snd ∧ Assoc.get base p.snd.fst = none := by
  have m := Pairing.matches_pairing sameDigest (·.fst) (addedFiles base candidate writeSet)
    (removedFiles base candidate writeSet)
  have hf := m.fitting p h
  have hr := mem_missingFrom.mp (m.firsts.subset (List.mem_map_of_mem h))
  have ha := mem_missingFrom.mp hf.2
  have hd : p.snd.snd = p.fst.snd := of_decide_eq_true hf.1
  exact ⟨hr.2.1, hr.2.2, hd ▸ ha.2.1, ha.2.2⟩

end Renames

section Partition

-- The patches of the files that keep their paths
def otherPaths (base candidate : Hashes) (writeSet : List String) : List String :=
  (computePatches base candidate writeSet).fst.filter fun path =>
    ∀ p ∈ renamePairs base candidate writeSet, p.fst.fst ≠ path ∧ p.snd.fst ≠ path

theorem patches_perm : (computePatches base candidate writeSet).snd.Perm
    ((otherPaths base candidate writeSet).map (patchOf base candidate) ++
      (renamePairs base candidate writeSet).map renamed) := by
  refine SortBy.perm_sortBy.trans (List.Perm.of_eq ?_)
  congr 1
  · refine congrArg _ (List.filter_congr fun path hp => ?_)
    rw [decide_eq_decide]
    simp only [foldl_addRename, renamed, List.map_map, Function.comp_def, List.mem_map, not_exists, not_and,
      Option.some.injEq]
    exact forall₂_and.symm
  · exact foldl_addRename

theorem changed_lt : (computePatches base candidate writeSet).fst.Pairwise (· < ·) :=
  (sortedSet_lt _).filter _

theorem mem_changed : path ∈ (computePatches base candidate writeSet).fst ↔
    Assoc.get base path ≠ Assoc.get candidate path := by
  rw [computePatches, List.mem_filter, decide_eq_true_eq]
  exact ⟨fun h => h.2, fun h => ⟨mem_allPaths_of_ne h, h⟩⟩

theorem touches_patchOf : (patchOf base candidate path).touches = [path] :=
  rfl

theorem touches_renamed {p : (String × String) × (String × String)} : (renamed p).touches = [p.snd.fst, p.fst.fst] :=
  rfl

-- What the renames touch: new paths first, old ones after them
theorem flatMap_renamed {pairs : List ((String × String) × (String × String))} :
    ((pairs.map renamed).flatMap Patch.touches).Perm (pairs.map (·.snd.fst) ++ pairs.map (·.fst.fst)) := by
  induction pairs with
  | nil          => exact List.Perm.refl _
  | cons p _ hi =>
    rw [List.map_cons, List.flatMap_cons, touches_renamed, List.map_cons, List.map_cons, List.cons_append]
    refine List.Perm.cons _ ?_
    exact (hi.cons p.fst.fst).trans List.perm_middle.symm

theorem mem_otherPaths : path ∈ otherPaths base candidate writeSet ↔
    Assoc.get base path ≠ Assoc.get candidate path ∧
      path ∉ (renamePairs base candidate writeSet).map (·.fst.fst) ∧
      path ∉ (renamePairs base candidate writeSet).map (·.snd.fst) := by
  rw [otherPaths, List.mem_filter, mem_changed, decide_eq_true_eq, List.mem_map, List.mem_map]
  simp only [not_exists, not_and, forall_and]

-- The patches touch each changed path once.
theorem touches_perm : ((computePatches base candidate writeSet).snd.flatMap Patch.touches).Perm
    (computePatches base candidate writeSet).fst := by
  have m := Pairing.matches_pairing sameDigest (·.fst) (addedFiles base candidate writeSet)
    (removedFiles base candidate writeSet)
  have hp := List.Perm.flatMap_right Patch.touches (patches_perm : (computePatches base candidate writeSet).snd.Perm _)
  rw [List.flatMap_append] at hp
  have ho : ((otherPaths base candidate writeSet).map (patchOf base candidate)).flatMap Patch.touches =
      otherPaths base candidate writeSet := by
    simp [List.flatMap_map, touches_patchOf]
  rw [ho] at hp
  refine hp.trans ((flatMap_renamed.append_left _).trans ?_)
  have hn : (computePatches base candidate writeSet).fst.Nodup := changed_lt.imp fun h => ne_of_lt h
  refine (List.perm_ext_iff_of_nodup ?_ hn).mpr fun path => ?_
  · have holds : ((renamePairs base candidate writeSet).map (·.fst.fst)).Nodup := by
      have hs := m.firsts.map Prod.fst
      rw [List.map_map] at hs
      exact (hs.trans missingFrom_sublist).nodup (nodup_sortedSet _)
    rw [List.nodup_append', List.nodup_append']
    refine ⟨hn.filter _, ⟨m.seconds, holds, ?_⟩, ?_⟩
    · intro path hs hf
      obtain ⟨p, hp, rfl⟩ := List.mem_map.mp hs
      obtain ⟨q, hq, he⟩ := List.mem_map.mp hf
      have hp := (removed_of_pair hp).2.2.2
      have hq := (removed_of_pair hq).1
      rw [he, hp] at hq
      cases hq
    · intro path ho hr
      have ho := mem_otherPaths.mp ho
      cases List.mem_append.mp hr with
      | inl hr => exact ho.2.2 hr
      | inr hr => exact ho.2.1 hr
  · rw [List.mem_append, List.mem_append, mem_otherPaths, mem_changed]
    constructor
    · rintro (h | h | h)
      · exact h.1
      · obtain ⟨p, hp, rfl⟩ := List.mem_map.mp h
        obtain ⟨_, _, h₁, h₂⟩ := removed_of_pair hp
        rw [h₁, h₂]
        exact fun h => by cases h
      · obtain ⟨p, hp, rfl⟩ := List.mem_map.mp h
        obtain ⟨h₁, h₂, _⟩ := removed_of_pair hp
        rw [h₁, h₂]
        exact fun h => by cases h
    · intro hne
      by_cases hs : path ∈ (renamePairs base candidate writeSet).map (·.snd.fst)
      case pos => exact .inr (.inl hs)
      case neg =>
        by_cases hf : path ∈ (renamePairs base candidate writeSet).map (·.fst.fst)
        case pos => exact .inr (.inr hf)
        case neg => exact .inl ⟨hne, hf, hs⟩

end Partition

section Application

theorem Patch.apply_cases (p : Patch) : (∃ digest, ∀ files, p.apply files = Function.update files p.path digest) ∨
    ∃ old, p.oldPath = some old ∧
      ∀ files, p.apply files = Function.update (Function.update files old none) p.path (files old) := by
  cases hc : p.changeType with
  | remove => exact .inl ⟨none, fun _ => by rw [apply, hc]⟩
  | add    => exact .inl ⟨p.candidateHash, fun _ => by rw [apply, hc]⟩
  | modify => exact .inl ⟨p.candidateHash, fun _ => by rw [apply, hc]⟩
  | rename =>
    cases ho : p.oldPath with
    | none     => exact .inl ⟨p.candidateHash, fun _ => by rw [apply, hc, ho]⟩
    | some old => exact .inr ⟨old, rfl, fun _ => by rw [apply, hc, ho]⟩

theorem Patch.local_apply : Updates.Local (fun files p => Patch.apply p files) Patch.touches where
  frame files p path h := by
    rw [Patch.touches, List.mem_cons, not_or] at h
    cases p.apply_cases with
    | inl ha =>
      obtain ⟨_, ha⟩ := ha
      rw [ha, Function.update_of_ne h.1]
    | inr ha =>
      obtain ⟨old, ho, ha⟩ := ha
      rw [ho, Option.toList_some, List.mem_singleton] at h
      rw [ha, Function.update_of_ne h.1, Function.update_of_ne h.2]
  reads files files' p h path hp := by
    cases p.apply_cases with
    | inl ha =>
      obtain ⟨_, ha⟩ := ha
      simp only [ha, Function.update_apply, h path hp]
    | inr ha =>
      obtain ⟨old, ho, ha⟩ := ha
      have hold := h old (by rw [Patch.touches, ho]; simp)
      simp only [ha, Function.update_apply, h path hp, hold]

theorem apply_patchOf (h : Assoc.get base path ≠ Assoc.get candidate path) :
    (patchOf base candidate path).apply (Assoc.get base) path = Assoc.get candidate path := by
  cases hb : Assoc.get base path with
  | none   =>
    cases hc : Assoc.get candidate path with
    | none   => exact absurd (hb.trans hc.symm) h
    | some _ => simp [patchOf, Patch.apply, hb, hc]
  | some _ =>
    cases hc : Assoc.get candidate path with
    | none   => simp [patchOf, Patch.apply, hb, hc]
    | some _ => simp [patchOf, Patch.apply, hb, hc]

theorem apply_renamed {p : (String × String) × (String × String)} (hp : p ∈ renamePairs base candidate writeSet)
    (h : path ∈ (renamed p).touches) : (renamed p).apply (Assoc.get base) path = Assoc.get candidate path := by
  obtain ⟨hold, hgone, hnew, hfree⟩ := removed_of_pair hp
  have hne : p.fst.fst ≠ p.snd.fst := fun he => by
    rw [he, hfree] at hold
    cases hold
  change Function.update (Function.update (Assoc.get base) p.fst.fst none) p.snd.fst (Assoc.get base p.fst.fst) path = _
  rw [touches_renamed] at h
  cases List.mem_cons.mp h with
  | inl h => rw [h, Function.update_self, hold, hnew]
  | inr h =>
    obtain rfl := List.mem_singleton.mp h
    rw [Function.update_of_ne hne, Function.update_self, hgone]

theorem mem_patches {p : Patch} : p ∈ (computePatches base candidate writeSet).snd ↔
    (∃ path ∈ otherPaths base candidate writeSet, patchOf base candidate path = p) ∨
    ∃ q ∈ renamePairs base candidate writeSet, renamed q = p := by
  rw [patches_perm.mem_iff, List.mem_append, List.mem_map, List.mem_map]

-- In any order the patches make the candidate's files of the baseline's.
theorem foldl_patches {l : List Patch} (h : l.Perm (computePatches base candidate writeSet).snd) :
    l.foldl (fun files p => Patch.apply p files) (Assoc.get base) = Assoc.get candidate := by
  have ht := (h.flatMap_right Patch.touches).trans touches_perm
  have hn : (l.flatMap Patch.touches).Nodup := ht.nodup_iff.mpr (changed_lt.imp fun h => ne_of_lt h)
  funext path
  by_cases hc : Assoc.get base path = Assoc.get candidate path
  case pos =>
    rw [← hc]
    refine Patch.local_apply.foldl_of_not_mem fun p hp hpath => ?_
    exact mem_changed.mp (ht.mem_iff.mp (List.mem_flatMap.mpr ⟨p, hp, hpath⟩)) hc
  case neg =>
    obtain ⟨p, hp, hpath⟩ := List.mem_flatMap.mp (ht.mem_iff.mpr (mem_changed.mpr hc))
    rw [Patch.local_apply.foldl_of_mem hn hp hpath]
    cases mem_patches.mp (h.mem_iff.mp hp) with
    | inl ho =>
      obtain ⟨path', _, rfl⟩ := ho
      rw [touches_patchOf, List.mem_singleton] at hpath
      subst hpath
      exact apply_patchOf hc
    | inr hr =>
      obtain ⟨q, hq, rfl⟩ := hr
      exact apply_renamed hq hpath

theorem patchOf_not_rename : (patchOf base candidate path).changeType ≠ .rename := by
  cases hb : Assoc.get base path with
  | none   => cases hc : Assoc.get candidate path <;> simp [patchOf, hb, hc]
  | some _ => cases hc : Assoc.get candidate path <;> simp [patchOf, hb, hc]

-- A rename moves a file to a new path.
structure Moves (base candidate : Hashes) (p : Patch) (old : String) : Prop where
  oldPath : p.oldPath = some old
  removed : (Assoc.get base old).isSome = true ∧ Assoc.get candidate old = none
  added   : Assoc.get candidate p.path = Assoc.get base old ∧ Assoc.get base p.path = none

theorem moves_of_rename {p : Patch} (h : p ∈ (computePatches base candidate writeSet).snd)
    (hr : p.changeType = .rename) : ∃ old, Moves base candidate p old := by
  cases mem_patches.mp h with
  | inl h =>
    obtain ⟨_, _, rfl⟩ := h
    exact absurd hr patchOf_not_rename
  | inr h =>
    obtain ⟨q, hq, rfl⟩ := h
    obtain ⟨hold, hgone, hnew, hfree⟩ := removed_of_pair hq
    exact ⟨q.fst.fst, rfl, ⟨by rw [hold]; rfl, hgone⟩, hnew.trans hold.symm, hfree⟩

theorem paired {old new digest : String} (hold : Assoc.get base old = some digest)
    (hgone : Assoc.get candidate old = none) (hnew : Assoc.get candidate new = some digest)
    (hfree : Assoc.get base new = none) :
    ∃ p ∈ (computePatches base candidate writeSet).snd, p.changeType = .rename ∧ (p.oldPath = some old ∨ p.path = new) := by
  have m := Pairing.matches_pairing sameDigest (·.fst) (addedFiles base candidate writeSet)
    (removedFiles base candidate writeSet)
  have hr : (old, digest) ∈ removedFiles base candidate writeSet :=
    mem_missingFrom.mpr ⟨mem_allPaths_of_base hold, hold, hgone⟩
  have ha : (new, digest) ∈ addedFiles base candidate writeSet :=
    mem_missingFrom.mpr ⟨mem_allPaths_of_candidate hnew, hnew, hfree⟩
  cases m.maximal _ hr _ ha (decide_eq_true rfl) with
  | inl h =>
    obtain ⟨q, hq, he⟩ := List.mem_map.mp h
    exact ⟨renamed q, mem_patches.mpr (.inr ⟨q, hq, rfl⟩), rfl, .inl (congrArg (some ∘ Prod.fst) he)⟩
  | inr h =>
    obtain ⟨q, hq, he⟩ := List.mem_map.mp h
    exact ⟨renamed q, mem_patches.mpr (.inr ⟨q, hq, rfl⟩), rfl, .inr he⟩

end Application

section Commit

open Outbox (BatchChange BatchResult Item normalizePath validate)

variable {p : Patch} {text : Option String} {token messageId now key : String} {affected : List String} {c : Item}

theorem ofString_text (t : ChangeType) : ∃ t', Outbox.ChangeType.ofString? t.text = some t' ∧
    (t' = .rename → t = .rename) := by
  cases t with
  | add    => exact ⟨.add, rfl, fun h => by cases h⟩
  | remove => exact ⟨.remove, rfl, fun h => by cases h⟩
  | modify => exact ⟨.modify, rfl, fun h => by cases h⟩
  | rename => exact ⟨.rename, rfl, fun _ => rfl⟩

theorem normalizeArgument_ok {value : String} (h : Outbox.normalizeArgument value = .ok key) :
    normalizePath value = .ok key := by
  rw [Outbox.normalizeArgument] at h
  split at h
  case h_1     => cases h
  case h_2 h' => exact h'.trans (congrArg _ (Except.ok.inj h))

theorem normalizeArgument_error {value : String} {r : BatchResult} (h : Outbox.normalizeArgument value = .error r) :
    ∃ e, r = .raised e := by
  rw [Outbox.normalizeArgument] at h
  split at h
  case h_1 e _ => exact ⟨e, (Except.error.inj h).symm⟩
  case h_2     => cases h

-- What the loop of `commit_many` makes of a patch: the normalized paths are added, or one of them is there already.
structure Checked (p : Patch) (affected : List String) (r : Except BatchResult Item) : Prop where
  ok        : ∀ c, r = .ok c → ∀ key ∈ c.paths, ∃ path ∈ p.touches, normalizePath path = .ok key
  duplicate : r = .error (.failed "duplicate_change_path") →
                ∃ key ∈ affected, ∃ path ∈ p.touches, normalizePath path = .ok key

-- The keys of a patch: its path, and the old one of a rename
theorem mem_keys {t : Outbox.ChangeType} {path : String} {oldPath : Option String}
    (hr : t = .rename → ∃ old, p.oldPath = some old) (hp : Outbox.normalizeArgument p.path = .ok path)
    (ho : (if t = .rename then some <$> Outbox.normalizeArgument (p.oldPath.getD "") else return none) = Except.ok oldPath)
    (hk : key ∈ path :: oldPath.toList) : ∃ path ∈ p.touches, normalizePath path = .ok key := by
  cases List.mem_cons.mp hk with
  | inl hk =>
    subst hk
    exact ⟨p.path, List.mem_cons_self, normalizeArgument_ok hp⟩
  | inr hk =>
    split at ho
    case isFalse =>
      cases ho
      cases hk
    case isTrue ht =>
      obtain ⟨old, hold⟩ := hr ht
      obtain ⟨k, hn, rfl⟩ := Except.map_eq_ok_iff.mp ho
      obtain rfl := List.mem_singleton.mp hk
      refine ⟨old, List.mem_cons_of_mem _ (by rw [hold]; exact List.mem_singleton_self _), ?_⟩
      rw [hold] at hn
      exact normalizeArgument_ok hn

theorem item_checked (hr : p.changeType = .rename → ∃ old, p.oldPath = some old) :
    Checked p affected ((p.change text token messageId now).item affected) := by
  obtain ⟨t, ht, hrename⟩ := ofString_text p.changeType
  have hr : t = .rename → ∃ old, p.oldPath = some old := fun h => hr (hrename h)
  constructor
  case ok =>
    intro c h
    rw [BatchChange.item, Patch.change, ht] at h
    obtain ⟨path, hp, h⟩ := Except.bind_eq_ok_iff.mp h
    obtain ⟨oldPath, ho, h⟩ := Except.bind_eq_ok_iff.mp h
    split at h
    case isTrue => cases h
    case isFalse =>
      dsimp only at h
      split at h
      case h_1 => cases h
      case h_2 =>
        split at h
        case isTrue  => cases h
        case isFalse =>
          cases h
          exact fun key hk => mem_keys hr hp ho hk
  case duplicate =>
    intro h
    rw [BatchChange.item, Patch.change, ht] at h
    cases Except.bind_eq_error_iff.mp h with
    | inl h =>
      obtain ⟨_, h⟩ := normalizeArgument_error h
      cases h
    | inr h =>
      obtain ⟨path, hp, h⟩ := h
      cases Except.bind_eq_error_iff.mp h with
      | inl h =>
        split at h
        case isFalse => cases h
        case isTrue  =>
          cases hn : Outbox.normalizeArgument (p.oldPath.getD "") with
          | ok _    => simp [hn] at h
          | error r =>
            obtain ⟨_, rfl⟩ := normalizeArgument_error hn
            simp [hn] at h
      | inr h =>
        obtain ⟨oldPath, ho, h⟩ := h
        split at h
        case isTrue => exact absurd (BatchResult.failed.inj (Except.error.inj h)) (by decide)
        case isFalse =>
          dsimp only at h
          split at h
          case h_1 => exact absurd (BatchResult.failed.inj (Except.error.inj h)) (by decide)
          case h_2 =>
            split at h
            case isFalse => cases h
            case isTrue ha =>
              obtain ⟨key, hk, ha⟩ := List.any_eq_true.mp ha
              exact ⟨key, of_decide_eq_true ha, mem_keys hr hp ho hk⟩

-- A duplicate is a spelling of a path that the patch before it, or one of those that `affected` stands for, has.
theorem validate_duplicate {change : Patch → BatchChange} {patches : List Patch} (seen : List String)
    (hc : ∀ p ∈ patches, ∀ affected, Checked p affected ((change p).item affected))
    (hs : ∀ key ∈ affected, ∃ path ∈ seen, normalizePath path = .ok key)
    (hn : (seen ++ patches.flatMap Patch.touches).Nodup)
    (h : validate affected (patches.map change) = .error (.failed "duplicate_change_path")) :
    ∃ x ∈ seen ++ patches.flatMap Patch.touches, ∃ y ∈ seen ++ patches.flatMap Patch.touches, x ≠ y ∧
      ∃ key, normalizePath x = .ok key ∧ normalizePath y = .ok key := by
  induction patches generalizing affected seen with
  | nil             => cases h
  | cons p patches ih =>
    have hp := hc p List.mem_cons_self affected
    rw [List.map_cons, validate] at h
    rw [List.flatMap_cons] at hn ⊢
    cases Except.bind_eq_error_iff.mp h with
    | inl h =>
      obtain ⟨key, ha, y, hy, hk⟩ := hp.duplicate h
      obtain ⟨x, hx, hk'⟩ := hs key ha
      refine ⟨x, List.mem_append_left _ hx, y, List.mem_append_right _ (List.mem_append_left _ hy), ?_, key, hk', hk⟩
      rintro rfl
      exact (List.nodup_append'.mp hn).2.2 hx (List.mem_append_left _ hy)
    | inr h =>
      obtain ⟨c, hcok, h⟩ := h
      cases Except.bind_eq_error_iff.mp h with
      | inr h =>
        obtain ⟨_, _, h⟩ := h
        cases h
      | inl h =>
        rw [← List.append_assoc] at hn ⊢
        refine ih _ (fun q hq => hc q (List.mem_cons_of_mem _ hq)) (fun key hk => ?_) hn h
        cases List.mem_append.mp hk with
        | inl hk =>
          obtain ⟨x, hx, hk⟩ := hs key hk
          exact ⟨x, List.mem_append_left _ hx, hk⟩
        | inr hk =>
          obtain ⟨x, hx, hk⟩ := hp.ok c hcok key hk
          exact ⟨x, List.mem_append_right _ hx, hk⟩

-- A complete difference without conflicts
structure Complete (base candidate : Hashes) (changed : List String) (patches : List Patch) : Prop where
  sorted   : changed.Pairwise (· < ·)
  differs  : ∀ path, path ∈ changed ↔ Assoc.get base path ≠ Assoc.get candidate path
  applied  : ∀ l : List Patch, l.Perm patches →
               l.foldl (fun files p => Patch.apply p files) (Assoc.get base) = Assoc.get candidate
  touched  : (patches.flatMap Patch.touches).Perm changed
  renames  : ∀ p ∈ patches, p.changeType = .rename → ∃ old, Moves base candidate p old
  once     : ∀ p ∈ patches, ∀ q ∈ patches, ∀ path, path ∈ p.touches → path ∈ q.touches → p = q
  paired   : ∀ old new digest, Assoc.get base old = some digest → Assoc.get candidate old = none →
               Assoc.get candidate new = some digest → Assoc.get base new = none →
               ∃ p ∈ patches, p.changeType = .rename ∧ (p.oldPath = some old ∨ p.path = new)
  accepted : ∀ (text : Patch → Option String) (token messageId now : Patch → String),
               validate [] (patches.map fun p => p.change (text p) (token p) (messageId p) (now p)) =
                 .error (.failed "duplicate_change_path") →
               ∃ x ∈ changed, ∃ y ∈ changed, x ≠ y ∧ ∃ key, normalizePath x = .ok key ∧ normalizePath y = .ok key

theorem eq_of_touches {patches : List Patch} (hn : (patches.flatMap Patch.touches).Nodup) {p q : Patch}
    (hp : p ∈ patches) (hq : q ∈ patches) (h : path ∈ p.touches) (h' : path ∈ q.touches) : p = q := by
  induction patches with
  | nil              => cases hp
  | cons r patches ih =>
    rw [List.flatMap_cons, List.nodup_append'] at hn
    have hr : ∀ s ∈ patches, path ∈ r.touches → path ∉ s.touches := fun s hs h h' =>
      hn.2.2 h (List.mem_flatMap.mpr ⟨s, hs, h'⟩)
    cases List.mem_cons.mp hp with
    | inl hp =>
      cases List.mem_cons.mp hq with
      | inl hq => exact hp.trans hq.symm
      | inr hq => exact absurd h' (hr q hq (hp ▸ h))
    | inr hp =>
      cases List.mem_cons.mp hq with
      | inl hq => exact absurd h (hr p hp (hq ▸ h'))
      | inr hq => exact ih hn.2.1 hp hq

theorem computePatches_complete (base candidate : Hashes) (writeSet : List String) :
    Complete base candidate (computePatches base candidate writeSet).fst (computePatches base candidate writeSet).snd where
  sorted                      := changed_lt
  differs _                   := mem_changed
  applied _ h                 := foldl_patches h
  touched                     := touches_perm
  renames _ hp hr             := moves_of_rename hp hr
  once _ hp _ hq _ h h'       := eq_of_touches (touches_perm.nodup_iff.mpr (changed_lt.imp fun h => ne_of_lt h)) hp hq h h'
  paired _ _ _ h₁ h₂ h₃ h₄    := paired h₁ h₂ h₃ h₄
  accepted text token messageId now h := by
    have hlt : (computePatches base candidate writeSet).fst.Pairwise (· < ·) := changed_lt
    have hn := touches_perm.nodup_iff.mpr (hlt.imp fun h => ne_of_lt h)
    obtain ⟨x, hx, y, hy, hne, key, hk⟩ := validate_duplicate [] (fun p hp affected => item_checked fun hr => by
      obtain ⟨old, hm⟩ := moves_of_rename hp hr
      exact ⟨old, hm.oldPath⟩) (fun _ h => by cases h) hn h
    exact ⟨x, touches_perm.mem_iff.mp hx, y, touches_perm.mem_iff.mp hy, hne, key, hk⟩

-- Two new files whose names differ in a blank at the end are one path for `commit_many`.
theorem computePatches_duplicate : ¬∀ (base candidate : Hashes) (writeSet : List String) (text : Patch → Option String),
    validate [] ((computePatches base candidate writeSet).snd.map fun p => p.change (text p) "" "" "") ≠
      .error (.failed "duplicate_change_path") := by
  intro h
  exact h [] [("a", "1"), ("a ", "2")] [] (fun _ => some "") (by decide +kernel)

end Commit
end Container
