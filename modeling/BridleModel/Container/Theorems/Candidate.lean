import BridleModel.Container.Candidate
import BridleModel.Python.Value

open Except

namespace Container

section Trees

variable {t t' : Tree} {path path' content : String} {sha256 : String → String}

theorem Tree.read_eq_some_iff : t.read path = some content ↔ (path, content) ∈ t := by
  rw [Tree.read, Option.map_eq_some_iff]
  constructor
  · rintro ⟨file, hl, rfl⟩
    obtain ⟨hm, hk⟩ := Table.lookup_eq_some_iff.mp hl
    obtain rfl : path = file.fst := List.mem_singleton.mp hk
    exact hm
  · exact fun hm => ⟨_, Table.lookup_eq_some_iff.mpr ⟨hm, List.mem_singleton_self _⟩, rfl⟩

theorem Tree.read_write_self : (t.write path content).read path = some content :=
  read_eq_some_iff.mpr (Table.mem_replace.mpr (.inr rfl))

theorem Tree.read_write_of_ne (h : path' ≠ path) : (t.write path content).read path' = t.read path' := by
  ext v
  rw [read_eq_some_iff, read_eq_some_iff, Tree.write, Table.mem_replace]
  constructor
  · rintro (hm | he)
    · exact hm.1
    · exact absurd (Prod.mk.inj he).1 h
  · exact fun hm => .inl ⟨hm, by simpa using h⟩

theorem Tree.read_empty : Tree.read .empty path = none := by
  rw [Tree.read, Table.lookup_empty]
  rfl

theorem Tree.get_hashes : Assoc.get (t.hashes sha256) path = (t.read path).map sha256 := by
  have hp : (fun file : String × String => decide (file.fst = path)) = fun file => decide (path ∈ [file.fst]) := by
    funext file
    simp [eq_comm]
  rw [Tree.read, Table.lookup, ← hp, Assoc.get, Tree.hashes, List.find?_map, Option.map_map, Option.map_map]
  rfl

theorem Tree.nodup : (t.rows.map (·.fst)).Nodup :=
  List.pairwise_map.mpr (t.unique.imp fun h => by simpa using h)

theorem Tree.perm_iff : t'.rows.Perm t.rows ↔ ∀ path, t.read path = t'.read path := by
  constructor
  · intro hp path
    ext content
    rw [read_eq_some_iff, read_eq_some_iff]
    exact hp.symm.mem_iff
  · intro h
    refine (List.perm_ext_iff_of_nodup t'.nodup.of_map t.nodup.of_map).mpr fun file => ?_
    have hr := h file.fst
    have h₁ : file ∈ t ↔ t.read file.fst = some file.snd := read_eq_some_iff.symm
    have h₂ : file ∈ t' ↔ t'.read file.fst = some file.snd := read_eq_some_iff.symm
    rw [← hr] at h₂
    exact h₂.trans h₁.symm

theorem Tree.isSome_read_iff : (t.read path).isSome = true ↔ path ∈ (t.hashes sha256).map (·.fst) := by
  rw [Option.isSome_iff_exists, Tree.hashes, List.map_map, List.mem_map]
  constructor
  · rintro ⟨content, h⟩
    exact ⟨_, read_eq_some_iff.mp h, rfl⟩
  · rintro ⟨file, hm, rfl⟩
    exact ⟨file.snd, read_eq_some_iff.mpr hm⟩

-- The changed paths are those where the trees differ.
theorem mem_changedPaths (injective : Function.Injective sha256) {writeSet : List String} :
    path ∈ (computePatches (t.hashes sha256) (t'.hashes sha256) writeSet).fst ↔ t.read path ≠ t'.read path := by
  have hget : Assoc.get (t.hashes sha256) path ≠ Assoc.get (t'.hashes sha256) path ↔ t.read path ≠ t'.read path := by
    rw [Tree.get_hashes, Tree.get_hashes]
    exact not_congr (Option.map_injective injective).eq_iff
  rw [computePatches, List.mem_filter, decide_eq_true_eq, hget]
  refine ⟨fun h => h.2, fun hne => ⟨?_, hne⟩⟩
  rw [sortedSet, List.mem_insertionSort, List.mem_dedup, List.append_assoc, List.mem_append, List.mem_append]
  cases hr : t.read path with
  | some _ => exact .inr (.inl (Tree.isSome_read_iff.mp (by rw [hr]; rfl)))
  | none   =>
    cases hr' : t'.read path with
    | some _ => exact .inr (.inr (Tree.isSome_read_iff.mp (by rw [hr']; rfl)))
    | none   => exact absurd (hr.trans hr'.symm) hne

theorem Tree.distinct_hashesJson : Json.Distinct (hashesJson (t.hashes sha256)) := by
  refine ⟨?_, Json.distinctFields_iff.mpr ?_⟩
  · rw [Tree.hashes, List.map_map, List.map_map]
    exact t.nodup
  · intro f hf
    obtain ⟨_, _, rfl⟩ := List.mem_map.mp hf
    trivial

theorem Tree.get_hashesJson : Json.Dict.get ((t.hashes sha256).map fun file => (file.fst, .str file.snd)) path =
    ((t.read path).map sha256).map .str := by
  rw [← Tree.get_hashes, Json.Dict.get, Assoc.get, List.find?_map, Option.map_map, Option.map_map]
  rfl

-- The hash of a tree identifies it.
theorem treeHash_eq_iff (injective : Function.Injective sha256) :
    treeHash sha256 (t.hashes sha256) = treeHash sha256 (t'.hashes sha256) ↔ ∀ path, t.read path = t'.read path := by
  rw [treeHash, treeHash, injective.eq_iff, Json.dumps_eq_iff]
  constructor
  · intro h path
    have hg := Json.Dict.get_of_canonical path Tree.distinct_hashesJson Tree.distinct_hashesJson h
    rw [Tree.get_hashesJson, Tree.get_hashesJson] at hg
    refine Option.map_injective injective (Option.map_injective ?_ (?_ : Option.map Json.str _ = Option.map .str _))
    · exact fun _ _ h => Json.str.inj h
    · cases hr : t.read path with
      | none   => cases hr' : t'.read path with
        | none   => rfl
        | some _ => rw [hr, hr'] at hg; cases hg
      | some _ => cases hr' : t'.read path with
        | none   => rw [hr, hr'] at hg; cases hg
        | some _ =>
          rw [hr, hr'] at hg
          simpa [Json.canonical] using hg
  · intro h
    have hp := Tree.perm_iff.mpr h
    refine (Json.Dict.canonical_perm Tree.distinct_hashesJson.1 ((hp.map _).map _)).symm

end Trees
-- What is copied into the workspace of a candidate.
section Copies

variable {files : Files} {writeSet : List String} {w w' : Workspace} {entry : WorksetFileEntry}
  {entries : List WorksetFileEntry} {path : String}

-- What one entry leaves of the trees
structure Copies (files : Files) (writeSet : List String) (entry : WorksetFileEntry) (w w' : Workspace) : Prop where
  source        : (files entry.relativePath).isSome
  project       : entry.kind ≠ .mock → w'.project.read entry.relativePath = files entry.relativePath
  otherProject  : ∀ path, ¬(entry.kind ≠ .mock ∧ entry.relativePath = path) → w'.project.read path = w.project.read path
  baseline      : entry.relativePath ∈ writeSet → w'.baseline.read entry.relativePath = files entry.relativePath
  otherBaseline : ∀ path, ¬(entry.relativePath ∈ writeSet ∧ entry.relativePath = path) →
    w'.baseline.read path = w.baseline.read path

theorem copyEntry_copies (h : copyEntry files writeSet w entry = .ok w') : Copies files writeSet entry w w' := by
  rw [copyEntry] at h
  split at h
  case h_1 => cases h
  case h_2 content hc =>
    cases h
    refine ⟨by rw [hc]; rfl, fun hk => ?_, fun path hp => ?_, fun hw => ?_, fun path hp => ?_⟩
    · simp only [hk, if_false, hc]
      split
      case isTrue  => exact Tree.read_write_self
      case isFalse => exact Tree.read_write_self
    · by_cases hk : entry.kind = .mock
      case pos =>
        simp only [hk, if_true]
        split
        case isTrue  => rfl
        case isFalse => rfl
      case neg =>
        have hne : path ≠ entry.relativePath := fun he => hp ⟨hk, he.symm⟩
        simp only [hk, if_false]
        split
        case isTrue  => exact Tree.read_write_of_ne hne
        case isFalse => exact Tree.read_write_of_ne hne
    · simp only [hw, if_true, hc]
      exact Tree.read_write_self
    · by_cases hw : entry.relativePath ∈ writeSet
      case pos =>
        have hne : path ≠ entry.relativePath := fun he => hp ⟨hw, he.symm⟩
        simp only [hw, if_true]
        exact Tree.read_write_of_ne hne
      case neg =>
        simp only [hw, if_false]
        split
        case isTrue  => rfl
        case isFalse => rfl

theorem read_project (h : entries.foldlM (copyEntry files writeSet) w = .ok w') (path : String) :
    ((∃ e ∈ entries, e.kind ≠ .mock ∧ e.relativePath = path) → w'.project.read path = files path) ∧
      ((¬∃ e ∈ entries, e.kind ≠ .mock ∧ e.relativePath = path) → w'.project.read path = w.project.read path) := by
  induction entries generalizing w with
  | nil           => cases h; simp
  | cons e es hi =>
    obtain ⟨w₁, h₁, h₂⟩ := bind_eq_ok_iff.mp h
    have c := copyEntry_copies h₁
    obtain ⟨hin, hout⟩ := hi h₂
    constructor
    · rintro ⟨d, hd, hk, hp⟩
      by_cases ht : ∃ e ∈ es, e.kind ≠ .mock ∧ e.relativePath = path
      case pos => exact hin ht
      case neg =>
        cases List.mem_cons.mp hd with
        | inr hd => exact absurd ⟨d, hd, hk, hp⟩ ht
        | inl hd =>
          subst hd hp
          exact (hout ht).trans (c.project hk)
    · intro hn
      rw [hout fun ht => hn (ht.imp fun _ h => ⟨List.mem_cons_of_mem _ h.1, h.2⟩)]
      exact c.otherProject path fun h => hn ⟨e, List.mem_cons_self, h⟩

theorem read_baseline (h : entries.foldlM (copyEntry files writeSet) w = .ok w') (path : String) :
    ((path ∈ writeSet ∧ ∃ e ∈ entries, e.relativePath = path) → w'.baseline.read path = files path) ∧
      ((¬(path ∈ writeSet ∧ ∃ e ∈ entries, e.relativePath = path)) → w'.baseline.read path = w.baseline.read path) := by
  induction entries generalizing w with
  | nil           => cases h; simp
  | cons e es hi =>
    obtain ⟨w₁, h₁, h₂⟩ := bind_eq_ok_iff.mp h
    have c := copyEntry_copies h₁
    obtain ⟨hin, hout⟩ := hi h₂
    constructor
    · rintro ⟨hw, d, hd, hp⟩
      by_cases ht : ∃ e ∈ es, e.relativePath = path
      case pos => exact hin ⟨hw, ht⟩
      case neg =>
        cases List.mem_cons.mp hd with
        | inr hd => exact absurd ⟨d, hd, hp⟩ ht
        | inl hd =>
          subst hd hp
          exact (hout fun h => ht h.2).trans (c.baseline hw)
    · intro hn
      rw [hout fun h => hn ⟨h.1, h.2.imp fun _ h => ⟨List.mem_cons_of_mem _ h.1, h.2⟩⟩]
      exact c.otherBaseline path fun h => hn ⟨h.2 ▸ h.1, e, List.mem_cons_self, h.2⟩

theorem source_of_copied (h : entries.foldlM (copyEntry files writeSet) w = .ok w') :
    ∀ e ∈ entries, (files e.relativePath).isSome := by
  induction entries generalizing w with
  | nil           => exact fun _ h => absurd h List.not_mem_nil
  | cons e es hi =>
    obtain ⟨w₁, h₁, h₂⟩ := bind_eq_ok_iff.mp h
    exact List.forall_mem_cons.mpr ⟨(copyEntry_copies h₁).source, hi h₂⟩

end Copies

section Resolved

variable {sha256 : String → String} {files : Files} {workset : MapWorksetInput} {resolved : MapWorksetResult}
  {moduleId path : String} {kind : WorksetKind} {invalid missing : String} {rels : List String}
  {entries : List WorksetFileEntry} {mocks : List (WorksetFileEntry × MapInterfaceMock)}

theorem resolveFile_path {rel : String} {e : WorksetFileEntry}
    (h : resolveFile files moduleId kind invalid missing rel = .ok e) : e.kind = kind ∧ normalize rel = some e.relativePath := by
  rw [resolveFile] at h
  split at h
  case h_1 => cases h
  case h_2 norm hn =>
    split at h
    case isTrue  => cases h; exact ⟨rfl, hn⟩
    case isFalse => cases h

theorem resolveMock_path {mock : MapInterfaceMock} {e : WorksetFileEntry × MapInterfaceMock}
    (h : resolveMock sha256 files moduleId mock = .ok e) :
    e.fst.kind = .mock ∧ normalize mock.filePath = some e.fst.relativePath := by
  rw [resolveMock] at h
  split at h
  case h_1 => cases h
  case h_2 norm hn =>
    split at h
    case h_1 => cases h
    case h_2 =>
      dsimp only at h
      split at h
      case isTrue  => cases h
      case isFalse => cases h; exact ⟨rfl, hn⟩

-- The paths of a loop's entries are those that its inputs name.
theorem exists_path_iff {α β : Type} {f : α → Except WorksetError β} {name : α → Option String} {at' : β → String}
    (hf : ∀ {a b}, f a = .ok b → name a = some (at' b)) {as : List α} {bs : List β} (h : as.mapM f = .ok bs) :
    (∃ b ∈ bs, at' b = path) ↔ ∃ a ∈ as, name a = some path := by
  constructor
  · rintro ⟨b, hb, rfl⟩
    obtain ⟨a, ha, he⟩ := (mem_of_mapM h).mp hb
    exact ⟨a, ha, hf he⟩
  · rintro ⟨a, ha, hn⟩
    obtain ⟨b, hb, he⟩ := ok_of_mapM h ha
    exact ⟨b, hb, Option.some.inj ((hf he).symm.trans hn)⟩

-- The paths that an input names
def Writes (workset : MapWorksetInput) (path : String) : Prop :=
  ∃ rel ∈ workset.implementationFiles ++ workset.testFiles, normalize rel = some path

def Reads (workset : MapWorksetInput) (path : String) : Prop :=
  ∃ rel ∈ workset.interfaceMocks.map (·.filePath) ++ workset.readonlyContext, normalize rel = some path

structure Resolved (workset : MapWorksetInput) (resolved : MapWorksetResult) : Prop where
  writeSet      : ∀ path, path ∈ resolved.writeSet ↔ Writes workset path
  readonlyFiles : ∀ path, path ∈ resolved.readonlyFiles ↔ Reads workset path
  entries       : ∀ path, (∃ e ∈ resolved.entries, e.relativePath = path) ↔ Writes workset path ∨ Reads workset path
  placed        : ∀ path, (∃ e ∈ resolved.entries, e.kind ≠ .mock ∧ e.relativePath = path) ↔
    Writes workset path ∨ ∃ rel ∈ workset.readonlyContext, normalize rel = some path

theorem resolve_resolved (h : resolve sha256 files workset = .ok resolved) : Resolved workset resolved := by
  obtain ⟨implementations, hi, h⟩ := bind_eq_ok_iff.mp h
  obtain ⟨tests, ht, h⟩ := bind_eq_ok_iff.mp h
  obtain ⟨mocks, hm, h⟩ := bind_eq_ok_iff.mp h
  obtain ⟨context, hc, h⟩ := bind_eq_ok_iff.mp h
  cases h
  have hip : ∀ path, (∃ e ∈ implementations, e.relativePath = path) ↔
      ∃ rel ∈ workset.implementationFiles, normalize rel = some path :=
    fun _ => exists_path_iff (fun h => (resolveFile_path h).2) hi
  have htp : ∀ path, (∃ e ∈ tests, e.relativePath = path) ↔ ∃ rel ∈ workset.testFiles, normalize rel = some path :=
    fun _ => exists_path_iff (fun h => (resolveFile_path h).2) ht
  have hmp : ∀ path, (∃ e ∈ mocks, e.fst.relativePath = path) ↔
      ∃ mock ∈ workset.interfaceMocks, normalize mock.filePath = some path :=
    fun _ => exists_path_iff (fun h => (resolveMock_path h).2) hm
  have hcp : ∀ path, (∃ e ∈ context, e.relativePath = path) ↔
      ∃ rel ∈ workset.readonlyContext, normalize rel = some path :=
    fun _ => exists_path_iff (fun h => (resolveFile_path h).2) hc
  have happ {α : Type} {l l' : List α} {P : α → Prop} :
      (∃ a ∈ l ++ l', P a) ↔ (∃ a ∈ l, P a) ∨ ∃ a ∈ l', P a := by
    simp only [List.mem_append, or_and_right, exists_or]
  have hmap {α β : Type} {l : List α} {f : α → β} {P : β → Prop} : (∃ b ∈ l.map f, P b) ↔ ∃ a ∈ l, P (f a) := by
    simp
  have hkind : ∀ e ∈ implementations ++ tests ++ context, e.kind ≠ .mock := by
    intro e he
    simp only [List.mem_append] at he
    obtain ((he | he) | he) := he
    · obtain ⟨_, _, hr⟩ := (mem_of_mapM hi).mp he
      rw [(resolveFile_path hr).1]
      simp
    · obtain ⟨_, _, hr⟩ := (mem_of_mapM ht).mp he
      rw [(resolveFile_path hr).1]
      simp
    · obtain ⟨_, _, hr⟩ := (mem_of_mapM hc).mp he
      rw [(resolveFile_path hr).1]
      simp
  constructor
  case writeSet =>
    intro path
    rw [mem_sortedSet, List.mem_map, happ, hip, htp, Writes, happ]
  case readonlyFiles =>
    intro path
    rw [mem_sortedSet, List.mem_map, happ, hmap, hmp, hcp, Reads, happ, hmap]
  case entries =>
    intro path
    rw [happ, happ, happ, hip, htp, hmap, hmp, hcp, Writes, Reads, happ, happ, hmap, or_assoc, or_assoc]
  case placed =>
    intro path
    constructor
    · rintro ⟨e, he, hk, hp⟩
      rw [Writes, happ, ← hip, ← htp, ← hcp]
      simp only [List.mem_append] at he
      obtain (((he | he) | he) | he) := he
      · exact .inl (.inl ⟨e, he, hp⟩)
      · exact .inl (.inr ⟨e, he, hp⟩)
      · obtain ⟨m, hmm, rfl⟩ := List.mem_map.mp he
        obtain ⟨_, _, hr⟩ := (mem_of_mapM hm).mp hmm
        exact absurd (resolveMock_path hr).1 hk
      · exact .inr ⟨e, he, hp⟩
    · rw [Writes, happ, ← hip, ← htp, ← hcp]
      have hof {e : WorksetFileEntry} (hm : e ∈ implementations ++ tests ++ context) (hp : e.relativePath = path) :
          ∃ e ∈ implementations ++ tests ++ mocks.map (·.fst) ++ context, e.kind ≠ .mock ∧ e.relativePath = path := by
        refine ⟨e, ?_, hkind e hm, hp⟩
        simp only [List.mem_append] at hm ⊢
        obtain ((hm | hm) | hm) := hm
        · exact .inl (.inl (.inl hm))
        · exact .inl (.inl (.inr hm))
        · exact .inr hm
      rintro ((h | h) | h)
      · obtain ⟨e, he, hp⟩ := h
        exact hof (List.mem_append_left _ (List.mem_append_left _ he)) hp
      · obtain ⟨e, he, hp⟩ := h
        exact hof (List.mem_append_left _ (List.mem_append_right _ he)) hp
      · obtain ⟨e, he, hp⟩ := h
        exact hof (List.mem_append_right _ he) hp

end Resolved
section Prepared

variable {sha256 : String → String} {files : Files} {workset : MapWorksetInput} {identity : CandidateIdentity}
  {c c₀ : Candidate} {actions : List CandidateAction} {path : String}

-- What edits and runs of the tests leave alone
structure Prepared (files : Files) (workset : MapWorksetInput) (c : Candidate) : Prop where
  writeSet      : ∀ path, path ∈ c.writeSet ↔ Writes workset path
  readonlyFiles : ∀ path, path ∈ c.readonlyFiles ↔ Reads workset path
  source        : ∀ path, Writes workset path → (files path).isSome
  baseline      : ∀ path, Writes workset path → c.baseline.read path = files path
  otherBaseline : ∀ path, ¬Writes workset path → c.baseline.read path = none

theorem build_prepared (h : buildCandidateWorkspace sha256 files identity workset = .ok c) :
    Prepared files workset c ∧
      (∀ path, (Writes workset path ∨ ∃ rel ∈ workset.readonlyContext, normalize rel = some path) →
        c.project.read path = files path ∧ (files path).isSome) ∧
      ∀ path, ¬(Writes workset path ∨ ∃ rel ∈ workset.readonlyContext, normalize rel = some path) →
        c.project.read path = none := by
  obtain ⟨resolved, hr, h⟩ := bind_eq_ok_iff.mp h
  obtain ⟨workspace, hw, h⟩ := bind_eq_ok_iff.mp h
  cases h
  have r := resolve_resolved hr
  have hsource := source_of_copied hw
  refine ⟨⟨r.writeSet, r.readonlyFiles, fun path hp => ?_, fun path hp => ?_, fun path hp => ?_⟩, fun path hp => ?_,
    fun path hp => ?_⟩
  · obtain ⟨e, he, rfl⟩ := (r.entries path).mpr (.inl hp)
    exact hsource e he
  · exact (read_baseline hw path).1 ⟨(r.writeSet path).mpr hp, (r.entries path).mpr (.inl hp)⟩
  · exact ((read_baseline hw path).2 fun h => hp ((r.writeSet path).mp h.1)).trans Tree.read_empty
  · have hplaced := (r.placed path).mpr hp
    refine ⟨(read_project hw path).1 hplaced, ?_⟩
    obtain ⟨e, he, _, rfl⟩ := hplaced
    exact hsource e he
  · exact ((read_project hw path).2 fun h => hp ((r.placed path).mp h)).trans Tree.read_empty

theorem Prepared.act (h : Prepared files workset c) (a : CandidateAction) : Prepared files workset (c.act a) := by
  cases a with
  | _ => exact ⟨h.writeSet, h.readonlyFiles, h.source, h.baseline, h.otherBaseline⟩

theorem Prepared.run (h : Prepared files workset c₀) (hr : (candidateSystem c₀).run c₀ actions = some c) :
    Prepared files workset c := by
  refine TransitionSystem.run_preserves (I := Prepared files workset) (fun {s₁ s₂ a} hs h => ?_) h hr
  have he : s₁.act a = s₂ := Option.some.inj h
  exact he ▸ hs.act a

theorem mem_freeze_changedPaths (injective : Function.Injective sha256) {revisions : List Nat} :
    path ∈ (c.freezeSubmission sha256 revisions).changedPaths ↔ c.baseline.read path ≠ c.project.read path :=
  mem_changedPaths injective

-- The changed paths are those of the write set exactly when the project tree has no other file.
theorem Prepared.changedPaths_iff (injective : Function.Injective sha256) (h : Prepared files workset c)
    {revisions : List Nat} :
    (∀ path, path ∈ (c.freezeSubmission sha256 revisions).changedPaths ↔
      path ∈ c.writeSet ∧ c.project.read path ≠ files path) ↔
    ∀ path, (c.project.read path).isSome → path ∈ c.writeSet := by
  simp only [mem_freeze_changedPaths injective, h.writeSet]
  constructor
  · intro hc path hs
    by_contra hw
    refine hw ((hc path).mp ?_).1
    rw [h.otherBaseline path hw]
    intro hn
    rw [← hn] at hs
    cases hs
  · intro hp path
    by_cases hw : Writes workset path
    case pos => simp only [hw, true_and, h.baseline path hw, ne_comm]
    case neg =>
      have hn : c.project.read path = none := Option.not_isSome_iff_eq_none.mp fun hs => hw (hp path hs)
      simp [hw, h.otherBaseline path hw, hn]

theorem Prepared.disjoint_iff (h : Prepared files workset c) :
    (∀ path ∈ c.writeSet, path ∉ c.readonlyFiles) ↔
      ∀ rel ∈ workset.implementationFiles ++ workset.testFiles,
        ∀ rel' ∈ workset.interfaceMocks.map (·.filePath) ++ workset.readonlyContext,
          ∀ path, normalize rel = some path → normalize rel' ≠ some path := by
  constructor
  · intro hd rel hr rel' hr' path hn hn'
    exact hd path ((h.writeSet path).mpr ⟨rel, hr, hn⟩) ((h.readonlyFiles path).mpr ⟨rel', hr', hn'⟩)
  · intro hd path hw hr
    obtain ⟨rel, hrel, hn⟩ := (h.writeSet path).mp hw
    obtain ⟨rel', hrel', hn'⟩ := (h.readonlyFiles path).mp hr
    exact hd rel hrel rel' hrel' path hn hn'

theorem validate_eq_valid_iff {submission : CandidateSubmission} :
    c.validateSubmission sha256 submission = .valid ↔
      c.toCandidateIdentity = submission.toCandidateIdentity ∧
        treeHash sha256 (c.baseline.hashes sha256) = submission.baseTreeHash ∧
        treeHash sha256 (c.project.hashes sha256) = submission.candidateTreeHash := by
  have hi : c.toCandidateIdentity = submission.toCandidateIdentity ↔
      ¬(submission.candidateId ≠ c.candidateId ∨ submission.baseMapSeq ≠ c.baseMapSeq ∨
        submission.boundaryFingerprint ≠ c.boundaryFingerprint ∨ submission.imageVersion ≠ c.imageVersion) := by
    cases c.toCandidateIdentity
    cases submission.toCandidateIdentity
    simp [eq_comm]
  rw [Candidate.validateSubmission, hi]
  split
  case isTrue hid  => simp [hid]
  case isFalse hid =>
    split
    case isTrue hb  => simp [hb]
    case isFalse hb =>
      split
      case isTrue hp  => simp [hp]
      case isFalse hp => simp only [hid, not_false_eq_true, not_not.mp hb, not_not.mp hp, and_self]

theorem validate_iff (injective : Function.Injective sha256) {c' : Candidate} {revisions : List Nat} :
    c'.validateSubmission sha256 (c.freezeSubmission sha256 revisions) = .valid ↔
      c'.toCandidateIdentity = c.toCandidateIdentity ∧ (∀ path, c'.baseline.read path = c.baseline.read path) ∧
        ∀ path, c'.project.read path = c.project.read path := by
  rw [validate_eq_valid_iff, ← treeHash_eq_iff injective, ← treeHash_eq_iff injective]
  rfl

theorem submission_exact_iff (injective : Function.Injective sha256)
    (prepared : buildCandidateWorkspace sha256 files identity workset = .ok c₀)
    (run : (candidateSystem c₀).run c₀ actions = some c) (revisions : List Nat) :
    ((∀ path, path ∈ (c.freezeSubmission sha256 revisions).changedPaths ↔
        path ∈ c.writeSet ∧ c.project.read path ≠ files path) ↔
      ∀ path, (c.project.read path).isSome → path ∈ c.writeSet) ∧
    ((c₀.freezeSubmission sha256 revisions).changedPaths = [] ↔
      ∀ rel ∈ workset.readonlyContext, ∀ path, normalize rel = some path → path ∈ c.writeSet) ∧
    ((∀ path ∈ c.writeSet, path ∉ c.readonlyFiles) ↔
      ∀ rel ∈ workset.implementationFiles ++ workset.testFiles,
        ∀ rel' ∈ workset.interfaceMocks.map (·.filePath) ++ workset.readonlyContext,
          ∀ path, normalize rel = some path → normalize rel' ≠ some path) ∧
    ∀ c' : Candidate, c'.validateSubmission sha256 (c.freezeSubmission sha256 revisions) = .valid ↔
      c'.toCandidateIdentity = c.toCandidateIdentity ∧ (∀ path, c'.baseline.read path = c.baseline.read path) ∧
        ∀ path, c'.project.read path = c.project.read path := by
  obtain ⟨h₀, hplaced, hother⟩ := build_prepared prepared
  have h := h₀.run run
  refine ⟨h.changedPaths_iff injective, ?_, h.disjoint_iff, fun c' => validate_iff injective⟩
  simp only [h.writeSet]
  rw [List.eq_nil_iff_forall_not_mem]
  simp only [mem_freeze_changedPaths injective, not_not]
  constructor
  · intro hf rel hr path hn
    by_contra hw
    obtain ⟨hp, hs⟩ := hplaced path (.inr ⟨rel, hr, hn⟩)
    rw [← hp, ← hf path, h₀.otherBaseline path hw] at hs
    cases hs
  · intro hc path
    by_cases hw : Writes workset path
    case pos => rw [h₀.baseline path hw, (hplaced path (.inl hw)).1]
    case neg =>
      rw [h₀.otherBaseline path hw, hother path]
      rintro (hw' | ⟨rel, hr, hn⟩)
      · exact hw hw'
      · exact hw (hc rel hr path hn)

end Prepared

namespace CandidateSample

def sha256 (text : String) : String :=
  "#" ++ text

theorem sha256_injective : Function.Injective sha256 :=
  fun _ _ h => by simpa [sha256] using h

def sources : Files :=
  fun path => if path = "src/a.py" then some "a" else if path = "docs/b.md" then some "b" else none

-- One file to write; other ones may be read.
def workset (readonlyContext : List String) : MapWorksetInput where
  moduleId            := "src"
  implementationFiles := ["src/a.py"]
  testFiles           := []
  testCommands        := []
  interfaceMocks      := []
  readonlyContext     := readonlyContext

def identity : CandidateIdentity :=
  ⟨"cand-1", 1, "boundary", "image"⟩

-- The candidate with these files to read
def candidate (readonlyContext : List String) : Candidate where
  toCandidateIdentity := identity
  project             := readonlyContext.foldl (fun t path => t.write path ((sources path).getD ""))
    (Tree.write .empty "src/a.py" "a")
  baseline            := Tree.write .empty "src/a.py" "a"
  mocks               := .empty
  writeSet            := ["src/a.py"]
  readSet             := sortedSet (readonlyContext ++ ["src/a.py"])
  readonlyFiles       := readonlyContext

theorem prepared : buildCandidateWorkspace sha256 sources identity (workset []) = .ok (candidate []) := by
  rfl

theorem prepared_context :
    buildCandidateWorkspace sha256 sources identity (workset ["docs/b.md"]) = .ok (candidate ["docs/b.md"]) := by
  rfl

end CandidateSample

open CandidateSample in
theorem submission_exact_edited :
    (((candidate []).act (.write "src/a.py" "c")).freezeSubmission sha256 []).changedPaths = ["src/a.py"] ∧
    ∀ path, path ∈ (((candidate []).act (.write "src/a.py" "c")).freezeSubmission sha256 []).changedPaths ↔
      path ∈ ["src/a.py"] ∧ ((candidate []).act (.write "src/a.py" "c")).project.read path ≠ sources path := by
  have run : (candidateSystem (candidate [])).run (candidate []) [.write "src/a.py" "c"] =
      some ((candidate []).act (.write "src/a.py" "c")) := rfl
  have hp : (((candidate []).act (.write "src/a.py" "c")).project.hashes sha256).map (·.fst) = ["src/a.py"] := by decide
  refine ⟨by decide, (submission_exact_iff sha256_injective prepared run []).1.mpr fun path hs => ?_⟩
  have hm : path ∈ (((candidate []).act (.write "src/a.py" "c")).project.hashes sha256).map (·.fst) :=
    Tree.isSome_read_iff.mp hs
  rw [hp] at hm
  exact hm

open CandidateSample in
theorem submission_not_exact :
    ¬∀ workset c₀ actions c, buildCandidateWorkspace sha256 sources identity workset = .ok c₀ →
      (candidateSystem c₀).run c₀ actions = some c →
      ∀ path ∈ (c.freezeSubmission sha256 []).changedPaths, path ∈ c.writeSet := by
  intro h
  have hp := h _ _ [] _ prepared_context rfl "docs/b.md" (by decide)
  exact absurd hp (by decide)

end Container
