import BridleModel.Workspace.FileService

namespace Workspace

open Python (Location)

section Requests

-- A path that is relative to the workspace and does not climb
structure Relative (relPath : List Char) : Prop where
  absolute : absolute relPath = false
  climbs   : ['.', '.'] ∉ parts relPath

-- The request names this file by the location that it resolves to.
structure Requested (tree : Tree) (workspace : Location) (relPath : List Char) (root inside : Location)
    (raw : List UInt8) (mtime : String) : Prop where
  workspace : tree.resolve workspace = .ok root
  target    : tree.resolve (root ++ parts relPath) = .ok (root ++ inside)
  file      : ∃ readable, tree.stat (root ++ inside) = some (.file raw mtime readable)

structure Previewable (inside : Location) (raw : List UInt8) : Prop where
  allowed : denied (text inside) = false
  small   : raw.length ≤ maxFileBytes
  noNul   : 0 ∉ raw.take binaryProbeBytes

-- A byte order mark is no part of the text.
def body (raw : List UInt8) : List UInt8 :=
  if bom.isPrefixOf raw then raw.drop 3 else raw

structure Shows (raw : List UInt8) (encoding : String) (content : List Char) : Prop where
  valid   : ∀ text : List Char, body raw = text.flatMap String.utf8EncodeChar → encoding = "utf-8" ∧ content = text
  invalid : (∀ text : List Char, body raw ≠ text.flatMap String.utf8EncodeChar) →
    encoding = "utf-8-fallback-replace" ∧ content = Utf8.decodeReplace (body raw)

end Requests

variable {tree : Tree} {workspace root target inside : Location} {relPath posix content : List Char}
variable {raw : List UInt8} {mtime encoding : String} {readable : Bool} {response : WorkspaceFileReadResponse}
variable {raised : Raised}

-- More fuel than there are links changes no resolution.
theorem Tree.joinRealpath_eq {path : Location} {fuel : Nat} (h : tree.links.length ≤ fuel) :
    Python.joinRealpath tree.readlink fuel [] [] path = Python.joinRealpath tree.readlink tree.links.length [] [] path := by
  have hl : ∀ newpath target, tree.readlink newpath = some target → newpath ∈ tree.links.map Prod.fst := by
    intro newpath target hr
    rw [Tree.readlink] at hr
    split at hr
    case isTrue  => cases hr
    case isFalse =>
      obtain ⟨l, l', he, _⟩ := List.lookup_eq_some_iff.mp hr
      simp [he]
  exact Python.joinRealpath_fuel hl List.nodup_nil (List.nil_subset _) (by simpa using h) (by simp)

section Text

theorem decode_eq_none_iff : Utf8.decode raw = none ↔ ∀ text : List Char, raw ≠ text.flatMap String.utf8EncodeChar := by
  constructor
  case mp  => exact fun h text he => by rw [Utf8.decode_eq_some_iff.mpr he] at h; cases h
  case mpr =>
    intro h
    cases hd : Utf8.decode raw with
    | none      => rfl
    | some text => exact absurd (Utf8.decode_eq_some_iff.mp hd) (h text)

theorem shows_valid {text : List Char} (h : body raw = text.flatMap String.utf8EncodeChar) : Shows raw "utf-8" text where
  valid _ h' :=
    ⟨rfl, Option.some.inj ((Utf8.decode_eq_some_iff.mpr h).symm.trans (Utf8.decode_eq_some_iff.mpr h'))⟩
  invalid hn     := absurd h (hn text)

theorem shows_invalid (h : ∀ text : List Char, body raw ≠ text.flatMap String.utf8EncodeChar) :
    Shows raw "utf-8-fallback-replace" (Utf8.decodeReplace (body raw)) where
  valid text h' := absurd h' (h text)
  invalid _     := ⟨rfl, rfl⟩

theorem Shows.unique {encoding' : String} {content' : List Char} (h : Shows raw encoding content)
    (h' : Shows raw encoding' content') : encoding = encoding' ∧ content = content' := by
  by_cases hv : ∃ text : List Char, body raw = text.flatMap String.utf8EncodeChar
  case pos =>
    obtain ⟨text, hv⟩ := hv
    obtain ⟨rfl, rfl⟩ := h.valid text hv
    obtain ⟨rfl, rfl⟩ := h'.valid _ hv
    exact ⟨rfl, rfl⟩
  case neg =>
    obtain ⟨rfl, rfl⟩ := h.invalid fun text he => hv ⟨text, he⟩
    obtain ⟨rfl, rfl⟩ := h'.invalid fun text he => hv ⟨text, he⟩
    exact ⟨rfl, rfl⟩

-- A byte order mark in front of something that is no text
def BadMark (raw : List UInt8) : Prop :=
  bom.isPrefixOf raw = true ∧ ∀ text : List Char, raw.drop 3 ≠ text.flatMap String.utf8EncodeChar

variable (raw) in
theorem decoded_cases :
    (BadMark raw ∧ decoded raw = .error .unicodeDecodeError) ∨
      (¬BadMark raw ∧ ∃ encoding content, decoded raw = .ok (encoding, content) ∧ Shows raw encoding content) := by
  rw [decoded]
  by_cases hb : bom.isPrefixOf raw
  case pos =>
    have hbody : body raw = raw.drop 3 := if_pos hb
    rw [if_pos hb]
    cases hd : Utf8.decode (raw.drop 3) with
    | none      => exact .inl ⟨⟨hb, decode_eq_none_iff.mp hd⟩, rfl⟩
    | some text =>
      have he := Utf8.decode_eq_some_iff.mp hd
      exact .inr ⟨fun h => h.right _ he, _, _, rfl, shows_valid (hbody.trans he)⟩
  case neg =>
    have hbody : body raw = raw := if_neg hb
    rw [if_neg hb]
    refine .inr ⟨fun h => hb h.left, ?_⟩
    cases hd : Utf8.decode raw with
    | none      =>
      have h : Shows raw _ (Utf8.decodeReplace (body raw)) := shows_invalid (by rwa [hbody, ← decode_eq_none_iff])
      rw [hbody] at h
      exact ⟨_, _, rfl, h⟩
    | some text => exact ⟨_, _, rfl, shows_valid (hbody.trans (Utf8.decode_eq_some_iff.mp hd))⟩

end Text

section Service

-- What the service owes to a request: it shows a file of the workspace only, every file that it may show, and raises
-- errors of its own only.
structure Serves (tree : Tree) (workspace : Location) (relPath : List Char) : Prop where
  confined : ∀ response, readText tree workspace relPath = .ok response → ∃ root inside raw mtime,
    Requested tree workspace relPath root inside raw mtime ∧ denied (text inside) = false ∧
      response.path = asPosix inside ∧ Shows raw response.encoding response.content
  served   : ∀ root inside raw mtime, Relative relPath →
    Requested tree workspace relPath root inside raw mtime → Previewable inside raw → ∃ encoding content,
      Shows raw encoding content ∧ readText tree workspace relPath = .ok
        { path := asPosix inside, size := raw.length, mtime, encoding, content, truncated := false }
  typed    : ∀ raised, readText tree workspace relPath = .error raised → ∃ error, raised = .bridle error

-- A location inside the workspace that `read_text` may go on with
structure Sound (tree : Tree) (target inside : Location) : Prop where
  reached : tree.refused target = false
  file    : ∀ raw mtime readable, tree.stat target = some (.file raw mtime readable) → raw.length ≤ maxFileBytes →
    readable = true ∧ (0 ∉ raw.take binaryProbeBytes → denied (text inside) = false ∧ ¬BadMark raw)

-- The request is turned away by its spelling alone, with a reason; or it names a sound location, without a link under
-- way that leads from an allowed spelling to a denied location, or back.
inductive Answered (tree : Tree) (workspace : Location) (relPath : List Char) : Prop
  | unrelated (h : ¬Relative relPath)
  | denied (hr : Relative relPath) (hd : denied (text (parts relPath)) = true)
      (hn : ∀ root inside raw mtime, Requested tree workspace relPath root inside raw mtime → ¬Previewable inside raw)
  | resolved (root target : Location) (hr : Relative relPath) (hd : Workspace.denied (text (parts relPath)) = false)
      (hw : tree.resolve workspace = .ok root) (ht : tree.resolve (root ++ parts relPath) = .ok target)
      (hs : ∀ inside, target = root ++ inside → Sound tree target inside)

variable (tree workspace) in
theorem readText_unrelated (h : ¬Relative relPath) : ∃ error, readText tree workspace relPath = .error (.bridle error) := by
  rw [readText]
  split
  case isTrue     => exact ⟨_, rfl⟩
  case isFalse ha =>
    split
    case isTrue     => exact ⟨_, rfl⟩
    case isFalse hc => exact absurd ⟨by simpa using ha, hc⟩ h

variable (tree workspace) in
theorem readText_denied (hr : Relative relPath) (hd : denied (text (parts relPath)) = true) :
    ∃ error, readText tree workspace relPath = .error (.bridle error) := by
  rw [readText, if_neg (by simp [hr.absolute]), if_neg hr.climbs, if_pos hd]
  exact ⟨_, rfl⟩

theorem readText_eq (hr : Relative relPath) (hd : denied (text (parts relPath)) = false) :
    readText tree workspace relPath = (do
      let workspaceResolved ← (tree.resolve workspace).mapError .resolve
      let target ← (tree.resolve (workspaceResolved ++ parts relPath)).mapError .resolve
      if ¬workspaceResolved.isPrefixOf target then
        .error (.bridle (ForbiddenError "workspace_file" "Path escapes workspace" "path_outside_workspace" none))
      else
        readTarget tree target (asPosix (target.drop workspaceResolved.length))) := by
  rw [readText, if_neg (by simp [hr.absolute]), if_neg hr.climbs, if_neg (by simp [hd])]

theorem readText_outside (hr : Relative relPath) (hd : denied (text (parts relPath)) = false)
    (hw : tree.resolve workspace = .ok root) (ht : tree.resolve (root ++ parts relPath) = .ok target)
    (ho : ¬root <+: target) : ∃ error, readText tree workspace relPath = .error (.bridle error) := by
  rw [readText_eq hr hd, hw]
  simp only [Except.mapError, bind, Except.bind, ht]
  rw [if_pos (by simpa using ho)]
  exact ⟨_, rfl⟩

theorem readText_inside (hr : Relative relPath) (hd : denied (text (parts relPath)) = false)
    (hw : tree.resolve workspace = .ok root) (ht : tree.resolve (root ++ parts relPath) = .ok (root ++ inside)) :
    readText tree workspace relPath = readTarget tree (root ++ inside) (asPosix inside) := by
  rw [readText_eq hr hd, hw]
  simp only [Except.mapError, bind, Except.bind, ht]
  rw [if_neg (by simp), List.drop_left]

theorem readText_unresolved (hr : Relative relPath) (hd : denied (text (parts relPath)) = false)
    (h : ∀ root target, tree.resolve workspace = .ok root → tree.resolve (root ++ parts relPath) ≠ .ok target) :
    ∃ error, readText tree workspace relPath = .error (.resolve error) := by
  rw [readText_eq hr hd]
  cases hw : tree.resolve workspace with
  | error e => exact ⟨e, rfl⟩
  | ok root =>
    cases ht : tree.resolve (root ++ parts relPath) with
    | error e   => exact ⟨e, by simp only [Except.mapError, bind, Except.bind, ht]⟩
    | ok target => exact absurd ht (h root target hw)

theorem readTarget_refused (h : tree.refused target = true) : readTarget tree target posix = .error .osError := by
  rw [readTarget]
  exact if_pos h

theorem readTarget_unreadable (hf : tree.stat target = some (.file raw mtime false)) (hs : raw.length ≤ maxFileBytes) :
    readTarget tree target posix = .error .osError := by
  rw [readTarget, hf]
  simp [Nat.not_lt.mpr hs]

theorem readTarget_file (hr : tree.refused target = false) (hf : tree.stat target = some (.file raw mtime true))
    (hs : raw.length ≤ maxFileBytes) (hp : 0 ∉ raw.take binaryProbeBytes) :
    readTarget tree target posix = (decoded raw).map fun (encoding, content) =>
      { path := posix, size := raw.length, mtime, encoding, content, truncated := false } := by
  rw [readTarget, hf]
  simp [hr, Nat.not_lt.mpr hs, hp]

theorem readTarget_otherwise (hr : tree.refused target = false)
    (hf : ∀ raw mtime readable, tree.stat target = some (.file raw mtime readable) →
      raw.length ≤ maxFileBytes → readable = true ∧ 0 ∈ raw.take binaryProbeBytes) :
    ∃ error, readTarget tree target posix = .error (.bridle error) := by
  rw [readTarget, if_neg (by simp [hr])]
  cases hn : tree.stat target with
  | none      => exact ⟨_, rfl⟩
  | some node =>
    cases node with
    | directory                => exact ⟨_, rfl⟩
    | file raw mtime readable  =>
      dsimp only
      by_cases hs : raw.length ≤ maxFileBytes
      case neg => exact ⟨_, if_pos (Nat.not_le.mp hs)⟩
      case pos =>
        obtain ⟨rfl, hp⟩ := hf raw mtime readable hn hs
        rw [if_neg (Nat.not_lt.mpr hs), if_neg (by simp), if_pos (by simpa using hp)]
        exact ⟨_, rfl⟩

-- From a sound location, `read_text` raises an error of its own or shows the file.
theorem Sound.answered (h : Sound tree target inside) (posix : List Char) :
    (∃ error, readTarget tree target posix = .error (.bridle error)) ∨
      ∃ raw mtime encoding content, tree.stat target = some (.file raw mtime true) ∧ denied (text inside) = false ∧
        Shows raw encoding content ∧ readTarget tree target posix = .ok
          { path := posix, size := raw.length, mtime, encoding, content, truncated := false } := by
  by_cases hf : ∃ raw mtime, tree.stat target = some (.file raw mtime true) ∧ raw.length ≤ maxFileBytes ∧
    0 ∉ raw.take binaryProbeBytes
  case pos =>
    obtain ⟨raw, mtime, hf, hs, hp⟩ := hf
    obtain ⟨hd, hb⟩ := (h.file _ _ _ hf hs).right hp
    obtain ⟨encoding, content, he, hshow⟩ := ((decoded_cases raw).resolve_left fun hm => hb hm.left).right
    refine .inr ⟨raw, mtime, encoding, content, hf, hd, hshow, ?_⟩
    rw [readTarget_file h.reached hf hs hp, he]
    rfl
  case neg =>
    refine .inl (readTarget_otherwise h.reached fun raw mtime readable hn hs => ?_)
    obtain ⟨rfl, _⟩ := h.file _ _ _ hn hs
    exact ⟨rfl, Decidable.byContradiction fun hp => hf ⟨raw, mtime, hn, hs, hp⟩⟩

theorem serves_of_error {error : BridleError} (h : readText tree workspace relPath = .error (.bridle error))
    (hn : Relative relPath → ∀ root inside raw mtime,
      Requested tree workspace relPath root inside raw mtime → ¬Previewable inside raw) :
    Serves tree workspace relPath where
  confined response hr             := by rw [h] at hr; cases hr
  served root inside raw mtime hr hq hp := absurd hp (hn hr _ _ _ _ hq)
  typed raised hr                  := by rw [h] at hr; cases hr; exact ⟨error, rfl⟩

theorem Requested.eq_root (h : Requested tree workspace relPath root inside raw mtime)
    {root' target : Location} (hw : tree.resolve workspace = .ok root')
    (ht : tree.resolve (root' ++ parts relPath) = .ok target) : root = root' ∧ target = root ++ inside := by
  obtain rfl := Except.ok.inj (h.workspace.symm.trans hw)
  exact ⟨rfl, Except.ok.inj (ht.symm.trans h.target)⟩

-- From a sound location, `read_text` shows every file that it may show.
theorem Sound.served (h : Sound tree target inside) (hf : tree.stat target = some (.file raw mtime readable))
    (hp : Previewable inside raw) : ∃ encoding content, Shows raw encoding content ∧
      readTarget tree target posix = .ok
        { path := posix, size := raw.length, mtime, encoding, content, truncated := false } := by
  obtain ⟨rfl, hb⟩ := h.file _ _ _ hf hp.small
  obtain ⟨encoding, content, he, hshow⟩ := ((decoded_cases raw).resolve_left fun hm => (hb hp.noNul).right hm.left).right
  refine ⟨encoding, content, hshow, ?_⟩
  rw [readTarget_file h.reached hf hp.small hp.noNul, he]
  rfl

section Inside

variable (he : readText tree workspace relPath = readTarget tree (root ++ inside) (asPosix inside))
variable (hw : tree.resolve workspace = .ok root)
variable (ht : tree.resolve (root ++ parts relPath) = .ok (root ++ inside))

include he hw ht

theorem Sound.serves (h : Sound tree (root ++ inside) inside) : Serves tree workspace relPath where
  confined response hr                  := by
    rw [he] at hr
    cases h.answered (asPosix inside) with
    | inl hb =>
      obtain ⟨error, hb⟩ := hb
      rw [hb] at hr
      cases hr
    | inr hb =>
      obtain ⟨raw, mtime, encoding, content, hf, hd, hshow, hb⟩ := hb
      rw [hb] at hr
      cases hr
      exact ⟨root, inside, raw, mtime, ⟨hw, ht, true, hf⟩, hd, rfl, hshow⟩
  served root' inside' raw mtime _ hq hp := by
    obtain ⟨rfl, hi⟩ := hq.eq_root hw ht
    obtain rfl := List.append_cancel_left hi
    obtain ⟨readable, hf⟩ := hq.file
    rw [he]
    exact h.served hf hp
  typed raised hr                       := by
    rw [he] at hr
    cases h.answered (asPosix inside) with
    | inl hb =>
      obtain ⟨error, hb⟩ := hb
      rw [hb] at hr
      cases hr
      exact ⟨error, rfl⟩
    | inr hb =>
      obtain ⟨_, _, _, _, _, _, _, hb⟩ := hb
      rw [hb] at hr
      cases hr

theorem Serves.sound (h : Serves tree workspace relPath) : Sound tree (root ++ inside) inside := by
  have hreached : tree.refused (root ++ inside) = false := by
    refine Bool.eq_false_iff.mpr fun hr => ?_
    obtain ⟨_, hb⟩ := h.typed _ (he.trans (readTarget_refused hr))
    cases hb
  refine ⟨hreached, fun raw mtime readable hf hs => ?_⟩
  cases readable with
  | false =>
    obtain ⟨_, hb⟩ := h.typed _ (he.trans (readTarget_unreadable hf hs))
    cases hb
  | true  =>
    refine ⟨rfl, fun hp => ?_⟩
    have hfile := he.trans (readTarget_file hreached hf hs hp)
    cases decoded_cases raw with
    | inl hm =>
      rw [hm.right] at hfile
      obtain ⟨_, hb⟩ := h.typed _ hfile
      cases hb
    | inr hm =>
      obtain ⟨hm, encoding, content, hdec, _⟩ := hm
      rw [hdec] at hfile
      obtain ⟨root', inside', raw', mtime', hq, hd, _⟩ := h.confined _ hfile
      obtain ⟨rfl, hi⟩ := hq.eq_root hw ht
      obtain rfl := List.append_cancel_left hi
      exact ⟨hd, hm⟩

end Inside

theorem Answered.serves (h : Answered tree workspace relPath) : Serves tree workspace relPath := by
  cases h with
  | unrelated h                           =>
    obtain ⟨error, he⟩ := readText_unrelated tree workspace h
    exact serves_of_error he fun hr => absurd hr h
  | denied hr hd hn                       =>
    obtain ⟨error, he⟩ := readText_denied tree workspace hr hd
    exact serves_of_error he fun _ => hn
  | resolved root target hr hd hw ht hs   =>
    by_cases hi : root <+: target
    case neg =>
      obtain ⟨error, he⟩ := readText_outside hr hd hw ht hi
      refine serves_of_error he fun _ root' inside raw mtime hq => ?_
      obtain ⟨rfl, rfl⟩ := hq.eq_root hw ht
      exact absurd (List.prefix_append _ _) hi
    case pos =>
      obtain ⟨inside, rfl⟩ := hi
      have he := readText_inside hr hd hw ht
      exact (hs inside rfl).serves he hw ht

-- The link `logs` leads to the directory of the repository's own data.
def linkedTree : Tree where
  nodes     := [(["w", ".git", "config"].map String.toList, .file [0x61] "1970-01-01T00:00:00+00:00" true)]
  links     := [(["w", "logs"].map String.toList, ".git".toList)]
  refused _ := false

end Service

end Workspace
