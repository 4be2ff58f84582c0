import BridleModel.Outbox.Recover

namespace Outbox

-- The recovery of the intent `row` leaves the file at `path` alone.
def ChangeIntent.Untouched (path : String) (row : ChangeIntent) : Prop :=
  row.staging ≠ some path ∧
    (row.relativePath = path → row.state = .committing → row.supersededBy ≠ none)

-- Recovery has nothing left to do for the intent.
structure ChangeIntent.Settled (files : Files) (row : ChangeIntent) : Prop where
  state   : row.supersededBy = none → row.state ≠ .reserved ∧ row.state ≠ .committing
  staging : row.supersededBy ≠ none ∨ row.state = .ready → ∀ path, row.staging = some path →
    files path = none

theorem ChangeIntent.Settled.congr {files files' : Files} {row : ChangeIntent}
    (h : row.Settled files) (hf : ∀ path, row.staging = some path → files' path = files path) :
    row.Settled files' where
  state            := h.state
  staging hs _ hp := (hf _ hp).trans (h.staging hs _ hp)

section Frame

variable {sha256 : Bytes → String} {files files' : Files} {s s' : Project} {row : ChangeIntent}
  {path : String} {ready : Bool}

theorem cleanupStaging_ne (h : row.staging ≠ some path) :
    cleanupStaging files row path = files path := by
  unfold cleanupStaging
  cases hs : row.staging with
  | none         => rfl
  | some staging => exact Files.unlink_ne fun he => h (he ▸ hs)

theorem cleanupStaging_self (h : row.staging = some path) : cleanupStaging files row path = none := by
  simp [cleanupStaging, h]

theorem cleanupStaging_eq_self (h : ∀ path, row.staging = some path → files path = none) :
    cleanupStaging files row = files := by
  unfold cleanupStaging
  cases hs : row.staging with
  | none         => rfl
  | some staging => exact Files.unlink_eq_self (h staging hs)

theorem Files.replace_ne {src dst : String} (h : files.replace src dst = some files')
    (hs : path ≠ src) (hd : path ≠ dst) : files' path = files path := by
  have ⟨_, _, h⟩ := Option.map_eq_some_iff.mp h
  rw [← h, write_ne hd, unlink_ne hs]

theorem replay_ne (h : replay sha256 files row = (files', ready)) (hp : path ≠ row.relativePath)
    (hs : row.staging ≠ some path) : files' path = files path := by
  unfold replay at h
  dsimp only at h
  split at h
  case h_1 => cases h; rfl
  case h_2 staging hstaging =>
    have hs : path ≠ staging := fun he => hs (he ▸ hstaging)
    split at h
    case isTrue =>
      split at h
      case isTrue => cases h; rfl
      split at h
      case h_1     => cases h; rfl
      case h_2 hr => cases h; exact Files.replace_ne hr hp hs
    case isFalse =>
      split at h
      case isTrue => cases h; rfl
      split at h
      case h_1     => cases h; rfl
      case h_2 hr => cases h; exact Files.replace_ne hr hs hp

theorem landed_ne (h : landed sha256 files row = (files', ready)) (hp : path ≠ row.relativePath)
    (hs : row.staging ≠ some path) : files' path = files path := by
  unfold landed at h
  dsimp only at h
  split at h
  case isTrue => cases h; rfl
  split at h
  case isTrue  => exact replay_ne h hp hs
  case isFalse => cases h; rfl

namespace Recovers

theorem frame (h : Recovers sha256 s row s') (hu : row.Untouched path) :
    s'.files path = s.files path := by
  cases h
  case none     => rfl
  case cleanup  => exact cleanupStaging_ne hu.left
  case reserved => exact cleanupStaging_ne hu.left
  case committing hc hs hl _ =>
    have hp : path ≠ row.relativePath := fun he => absurd hc (hu.right he.symm hs)
    exact (cleanupStaging_ne hu.left).trans (landed_ne hl hp hu.left)

theorem others {m : String} (h : Recovers sha256 s row s') (hm : m ≠ row.messageId) :
    s'.db.row? m = s.db.row? m := by
  cases h
  case none               => rfl
  case cleanup            => rfl
  case reserved ho        => exact ho m hm
  case committing _ _ _ h => exact h.others m hm

-- The intent is gone or settled, and its paths are as before.
theorem settled {row' : ChangeIntent} (h : Recovers sha256 s row s')
    (hr : s.db.row? row.messageId = some row) (hr' : s'.db.row? row.messageId = some row') :
    row'.Settled s'.files ∧ row'.relativePath = row.relativePath ∧
      row'.stagingPath = row.stagingPath := by
  cases h
  case none hc hs =>
    cases hr.symm.trans hr'
    refine ⟨⟨fun _ => ?_, fun h => ?_⟩, rfl, rfl⟩
    · cases hs <;> simp [*]
    · cases hs <;> simp_all
  case cleanup hs =>
    cases hr.symm.trans hr'
    refine ⟨⟨fun hc => ?_, fun _ _ hp => cleanupStaging_self hp⟩, rfl, rfl⟩
    cases hs with
    | inl hs => exact absurd hc hs
    | inr hs => simp [hs]
  case reserved hg _ => cases hg.symm.trans hr'
  case committing ready _ hc _ _ ha =>
    cases ha.found.symm.trans hr'
    refine ⟨⟨fun _ => ?_, fun _ _ hp => cleanupStaging_self hp⟩, rfl, rfl⟩
    cases ready <;> simp [ChangeIntent.recovered]

theorem eq_self (h : Recovers sha256 s row s') (hs : row.Settled s.files) : s' = s := by
  cases h
  case none       => rfl
  case cleanup hc => rw [cleanupStaging_eq_self (hs.staging hc)]
  case reserved hc hr _ _   => exact absurd hr (hs.state hc).left
  case committing hc hr _ _ => exact absurd hr (hs.state hc).right

end Recovers
end Frame

-- The name of a staging file carries a random token: no other change uses it.
def OutboxDb.Separated (db : OutboxDb) : Prop :=
  ∀ row ∈ db, ∀ path, row.staging = some path → ∀ row' ∈ db,
    row'.relativePath ≠ path ∧ (row'.staging = some path → row'.messageId = row.messageId)

-- The paths of the intents can be locked.
def OutboxDb.Lockable (db : OutboxDb) : Prop :=
  ∀ row ∈ db, ∃ path, normalizePath row.relativePath = .ok path

section Run

variable {sha256 : Bytes → String} {s s' s'' : Project} {row snapshot : ChangeIntent}
  {snapshots : List ChangeIntent} {m path : String}

theorem recoverIntent_cases (h : recoverIntent sha256 s snapshot = .ok s') :
    (s.db.row? snapshot.messageId = none ∧ s' = s) ∨
      ∃ row, s.db.row? snapshot.messageId = some row ∧ Recovers sha256 s row s' := by
  cases hr : s.db.row? snapshot.messageId with
  | some row => exact .inr ⟨row, rfl, recoverIntent_recovers h hr⟩
  | none     =>
    have ⟨_, _, h⟩ := Except.bind_eq_ok_iff.mp h
    rw [hr] at h
    cases h
    exact .inl ⟨rfl, rfl⟩

theorem recoverIntent_total (h : normalizePath snapshot.relativePath = .ok path) :
    ∃ s', recoverIntent sha256 s snapshot = .ok s' := by
  unfold recoverIntent
  rw [h]
  dsimp only [bind, Except.bind]
  split
  case h_1 => exact ⟨_, rfl⟩
  split
  case isTrue => exact ⟨_, rfl⟩
  split
  case h_1 => split <;> exact ⟨_, rfl⟩
  case h_2 => exact ⟨_, rfl⟩
  case h_3 => split <;> exact ⟨_, rfl⟩
  case h_4 => exact ⟨_, rfl⟩
  case h_5 => exact ⟨_, rfl⟩

theorem recoverIntent_others (h : recoverIntent sha256 s snapshot = .ok s')
    (hm : m ≠ snapshot.messageId) : s'.db.row? m = s.db.row? m := by
  cases recoverIntent_cases h with
  | inl hn => rw [hn.right]
  | inr hr =>
    have ⟨row, hr, hrec⟩ := hr
    exact hrec.others (OutboxDb.messageId_of_row? hr ▸ hm)

-- Recovery does not invent intents or paths.
theorem recoverIntent_descends (h : recoverIntent sha256 s snapshot = .ok s') (hm : row ∈ s'.db) :
    ∃ row₀ ∈ s.db, row₀.messageId = row.messageId ∧ row₀.relativePath = row.relativePath ∧
      row₀.stagingPath = row.stagingPath := by
  have hr := OutboxDb.row?_of_mem hm
  cases recoverIntent_cases h with
  | inl hn => exact ⟨row, hn.right ▸ hm, rfl, rfl, rfl⟩
  | inr hrec =>
    have ⟨row₀, hr₀, hrec⟩ := hrec
    have ⟨hm₀, hid⟩ := OutboxDb.row?_eq_some_iff.mp hr₀
    by_cases he : row.messageId = row₀.messageId
    case neg =>
      rw [hrec.others he] at hr
      exact ⟨row, OutboxDb.row?_eq_some_iff.mp hr |>.left, rfl, rfl, rfl⟩
    case pos =>
      have ⟨_, hp, hs⟩ := hrec.settled (hid ▸ hr₀) (he ▸ hr)
      exact ⟨row₀, hm₀, he.symm, hp.symm, hs.symm⟩

theorem recoverIntent_separated (h : recoverIntent sha256 s snapshot = .ok s')
    (hs : s.db.Separated) : s'.db.Separated := by
  intro row hm path hp row' hm'
  have ⟨row₀, hm₀, hid, _, hst⟩ := recoverIntent_descends h hm
  have ⟨row₀', hm₀', hid', hp', hst'⟩ := recoverIntent_descends h hm'
  have hp₀ : row₀.staging = some path := by rw [ChangeIntent.staging, hst]; exact hp
  have ⟨hne, heq⟩ := hs row₀ hm₀ path hp₀ row₀' hm₀'
  refine ⟨hp' ▸ hne, fun h' => ?_⟩
  rw [← hid, ← hid']
  exact heq (by rw [ChangeIntent.staging, hst']; exact h')

theorem recoverIntent_lockable (h : recoverIntent sha256 s snapshot = .ok s')
    (hl : s.db.Lockable) : s'.db.Lockable := by
  intro row hm
  have ⟨row₀, hm₀, _, hp, _⟩ := recoverIntent_descends h hm
  exact hp ▸ hl row₀ hm₀

theorem foldlM_recoverIntent_total
    (h : ∀ snapshot ∈ snapshots, ∃ path, normalizePath snapshot.relativePath = .ok path) :
    ∃ s', snapshots.foldlM (recoverIntent sha256) s = .ok s' := by
  induction snapshots generalizing s
  case nil => exact ⟨s, rfl⟩
  case cons snapshot snapshots hi =>
    have ⟨path, hp⟩ := h snapshot List.mem_cons_self
    have ⟨s₁, h₁⟩ : ∃ s₁, recoverIntent sha256 s snapshot = .ok s₁ := recoverIntent_total hp
    have ⟨s₂, h₂⟩ := hi (s := s₁) fun a ha => h a (List.mem_cons_of_mem _ ha)
    exact ⟨s₂, Except.bind_eq_ok_iff.mpr ⟨s₁, h₁, h₂⟩⟩

-- The intents that the loop has visited are settled.
theorem foldlM_recoverIntent_settled
    (h : snapshots.foldlM (recoverIntent sha256) s = .ok s') (hs : s.db.Separated)
    (hv : ∀ row ∈ s.db, row.messageId ∉ snapshots.map (·.messageId) → row.Settled s.files) :
    ∀ row ∈ s'.db, row.Settled s'.files := by
  induction snapshots generalizing s
  case nil => cases h; exact fun row hm => hv row hm List.not_mem_nil
  case cons snapshot snapshots hi =>
    have ⟨s₁, h₁, h⟩ := Except.bind_eq_ok_iff.mp h
    refine hi h (recoverIntent_separated h₁ hs) fun row hm hn => ?_
    have hr := OutboxDb.row?_of_mem hm
    by_cases he : row.messageId = snapshot.messageId
    case pos =>
      rw [he] at hr
      cases recoverIntent_cases h₁ with
      | inl hn =>
        rw [hn.right, hn.left] at hr
        cases hr
      | inr hrec =>
        have ⟨row₀, hr₀, hrec⟩ := hrec
        have hid := OutboxDb.messageId_of_row? hr₀
        exact hrec.settled (hid ▸ hr₀) (hid ▸ hr) |>.left
    case neg =>
      rw [recoverIntent_others h₁ he] at hr
      have hm₀ := OutboxDb.row?_eq_some_iff.mp hr |>.left
      refine (hv row hm₀ (by simp [he, hn])).congr fun path hp => ?_
      cases recoverIntent_cases h₁ with
      | inl hn   => rw [hn.right]
      | inr hrec =>
        have ⟨row₀, hr₀, hrec⟩ := hrec
        have ⟨hm', hid⟩ := OutboxDb.row?_eq_some_iff.mp hr₀
        have ⟨hne, heq⟩ := hs row hm₀ path hp row₀ hm'
        exact hrec.frame ⟨fun h' => he ((heq h').symm.trans hid), fun h' => absurd h' hne⟩

theorem foldlM_recoverIntent_invariant {I : Project → Prop}
    (step : ∀ {s s' snapshot}, I s → recoverIntent sha256 s snapshot = .ok s' → I s')
    (hs : I s) (h : snapshots.foldlM (recoverIntent sha256) s = .ok s') : I s' := by
  induction snapshots generalizing s
  case nil => cases h; exact hs
  case cons snapshot snapshots hi =>
    have ⟨_, h₁, h⟩ := Except.bind_eq_ok_iff.mp h
    exact hi (step hs h₁) h

-- What the visit of one intent establishes holds in the end.
theorem foldlM_recoverIntent_visits {B A : Project → Prop}
    (other : ∀ {s s' a}, a.messageId ≠ m → B s → recoverIntent sha256 s a = .ok s' → B s')
    (own : ∀ {s s' a}, a.messageId = m → B s → recoverIntent sha256 s a = .ok s' → A s')
    (after : ∀ {s s' a}, A s → recoverIntent sha256 s a = .ok s' → A s')
    (hb : B s) (hm : m ∈ snapshots.map (·.messageId))
    (h : snapshots.foldlM (recoverIntent sha256) s = .ok s') : A s' := by
  induction snapshots generalizing s
  case nil => cases hm
  case cons snapshot snapshots hi =>
    have ⟨_, h₁, h⟩ := Except.bind_eq_ok_iff.mp h
    by_cases he : snapshot.messageId = m
    case pos => exact foldlM_recoverIntent_invariant after (own he hb h₁) h
    case neg =>
      refine hi (other he hb h₁) ?_ h
      simpa [Ne.symm he] using hm

theorem recover_total (h : s.db.Lockable) : ∃ s', recover sha256 s = .ok s' :=
  foldlM_recoverIntent_total fun snapshot hm => h snapshot (OutboxDb.mem_intents.mp hm)

theorem recover_lockable (h : recover sha256 s = .ok s') (hl : s.db.Lockable) : s'.db.Lockable :=
  foldlM_recoverIntent_invariant (I := (·.db.Lockable)) (fun hl h => recoverIntent_lockable h hl) hl h

-- A second recovery changes nothing.
theorem recover_idempotent (hs : s.db.Separated) (hl : s.db.Lockable)
    (h : recover sha256 s = .ok s') : recover sha256 s' = .ok s' := by
  have settled : ∀ row ∈ s'.db, row.Settled s'.files := by
    refine foldlM_recoverIntent_settled h hs fun row hm hn => absurd ?_ hn
    exact List.mem_map_of_mem (OutboxDb.mem_intents.mpr hm)
  have lockable := recover_lockable h hl
  have visit {l : List ChangeIntent} (hsub : ∀ row ∈ l, row ∈ s'.db) :
      l.foldlM (recoverIntent sha256) s' = .ok s' := by
    induction l
    case nil => rfl
    case cons row l hi =>
      have hm := hsub row List.mem_cons_self
      have ⟨path, hp⟩ := lockable row hm
      have ⟨s₁, h₁⟩ : ∃ s₁, recoverIntent sha256 s' row = .ok s₁ := recoverIntent_total hp
      have hrec := recoverIntent_recovers h₁ (OutboxDb.row?_of_mem hm)
      cases hrec.eq_self (settled row hm)
      exact Except.bind_eq_ok_iff.mpr ⟨s', h₁, hi fun a ha => hsub a (List.mem_cons_of_mem _ ha)⟩
  exact visit fun row hm => OutboxDb.mem_intents.mp hm

end Run

section Outcome

variable (sha256 : Bytes → String)

-- `landed` in terms of what is at the two paths of the intent: the new content of the target
def landing (row : ChangeIntent) (target staging : Option Bytes) : Option Bytes × Bool :=
  if fileDigest sha256 target = row.afterDigest then
    (target, true)
  else if fileDigest sha256 target = row.beforeDigest then
    if row.changeType = .remove then
      if target = none ∨ staging ≠ none then
        (target, false)
      else
        (none, missingDigest = row.afterDigest)
    else if fileDigest sha256 staging ≠ row.afterDigest ∨ staging = none then
      (target, false)
    else
      (staging, true)
  else
    (target, false)

-- What recovery makes of the target and of the intent itself
def outcome (row : ChangeIntent) (target staging : Option Bytes) :
    Option Bytes × Option ChangeIntent :=
  match row.state with
  | .reserved                              => (target, none)
  | .committing                            =>
    let (content, ready) := landing sha256 row target staging
    (content, some (row.recovered ready))
  | .ready | .delivered | .rebaseRequired => (target, some row)

variable {sha256} {files files' : Files} {s s' : Project} {row snapshot : ChangeIntent}
  {path staging m : String} {ready : Bool}

theorem replay_landing (hs : row.staging = some staging) (hne : staging ≠ row.relativePath)
    (ha : fileDigest sha256 (files row.relativePath) ≠ row.afterDigest)
    (hb : fileDigest sha256 (files row.relativePath) = row.beforeDigest)
    (h : replay sha256 files row = (files', ready)) :
    (files' row.relativePath, ready) =
      landing sha256 row (files row.relativePath) (files staging) := by
  unfold landing
  rw [if_neg ha, if_pos hb]
  unfold replay at h
  rw [hs] at h
  dsimp only at h
  split
  case isTrue ht =>
    rw [if_pos ht] at h
    split
    case isTrue hn  => rw [if_pos hn] at h; cases h; rfl
    case isFalse hn =>
      rw [if_neg hn] at h
      have ⟨old, ho⟩ := Option.ne_none_iff_exists'.mp fun h => hn (.inl h)
      simp only [Files.replace, ho, Option.map_some] at h
      cases h
      simp [Files.write_ne hne.symm, fileDigest]
  case isFalse ht =>
    rw [if_neg ht] at h
    split
    case isTrue hn =>
      cases hn with
      | inl hn => rw [if_pos hn] at h; cases h; rfl
      | inr hn =>
        simp only [Files.replace, hn, Option.map_none] at h
        split at h <;> cases h <;> rfl
    case isFalse hn =>
      have ⟨hd, hn⟩ := not_or.mp hn
      rw [if_neg hd] at h
      have ⟨new, hw⟩ := Option.ne_none_iff_exists'.mp hn
      rw [hw, Decidable.not_not] at hd
      simp only [Files.replace, hw, Option.map_some] at h
      cases h
      simp [hw, hd]

theorem landed_landing (hs : row.staging = some staging) (hne : staging ≠ row.relativePath)
    (h : landed sha256 files row = (files', ready)) :
    (files' row.relativePath, ready) =
      landing sha256 row (files row.relativePath) (files staging) := by
  unfold landed at h
  dsimp only at h
  split at h
  case isTrue ha  => cases h; rw [landing, if_pos ha]
  case isFalse ha =>
    split at h
    case isTrue hb  => exact replay_landing hs hne ha hb h
    case isFalse hb => cases h; rw [landing, if_neg ha, if_neg hb]

theorem outcome_of_recovers (h : Recovers sha256 s row s') (hr : s.db.row? row.messageId = some row)
    (hc : row.supersededBy = none) (hs : row.staging = some staging)
    (hne : staging ≠ row.relativePath) (hd : row.state ≠ .delivered)
    (hb : row.state ≠ .rebaseRequired) :
    (s'.files row.relativePath, s'.db.row? row.messageId) =
        outcome sha256 row (s.files row.relativePath) (s.files staging) ∧
      s'.files staging = none := by
  have keep {files : Files} :
      cleanupStaging files row row.relativePath = files row.relativePath :=
    cleanupStaging_ne fun he => hne <| Option.some.inj <| hs.symm.trans he
  have gone {files : Files} : cleanupStaging files row staging = none := cleanupStaging_self hs
  cases h
  case none h => cases h <;> contradiction
  case cleanup h =>
    have hready : row.state = .ready := h.resolve_left (not_not.mpr hc)
    refine ⟨?_, gone⟩
    dsimp only
    rw [keep, hr, outcome, hready]
  case reserved hstate hg _ =>
    refine ⟨?_, gone⟩
    dsimp only
    rw [keep, hg, outcome, hstate]
  case committing hstate hl ha =>
    refine ⟨?_, gone⟩
    dsimp only
    rw [keep, ha.found, outcome, hstate, ← landed_landing hs hne hl]

end Outcome

-- Nobody else's recovery touches the file at `path`.
def OutboxDb.Isolated (db : OutboxDb) (m path : String) : Prop :=
  ∀ row ∈ db, row.messageId ≠ m → row.Untouched path

section Isolated

variable {sha256 : Bytes → String} {s s' : Project} {row snapshot : ChangeIntent}
  {m path staging : String}

theorem recoverIntent_isolated (h : recoverIntent sha256 s snapshot = .ok s')
    (hi : s.db.Isolated m path) : s'.db.Isolated m path := by
  intro row hm hne
  have hr := OutboxDb.row?_of_mem hm
  by_cases he : row.messageId = snapshot.messageId
  case neg =>
    rw [recoverIntent_others h he] at hr
    exact hi row (OutboxDb.row?_eq_some_iff.mp hr |>.left) hne
  case pos =>
    rw [he] at hr
    cases recoverIntent_cases h with
    | inl hn => exact hi row (hn.right ▸ hm) hne
    | inr hrec =>
      have ⟨row₀, hr₀, hrec⟩ := hrec
      have ⟨hm₀, hid⟩ := OutboxDb.row?_eq_some_iff.mp hr₀
      have ⟨hset, _, hst⟩ := hrec.settled (hid ▸ hr₀) (hid ▸ hr)
      have hu := hi row₀ hm₀ (hid ▸ he ▸ hne)
      refine ⟨?_, fun _ hc hn => (hset.state hn).right hc⟩
      rw [ChangeIntent.staging, hst]
      exact hu.left

theorem recoverIntent_frame (h : recoverIntent sha256 s snapshot = .ok s')
    (hi : s.db.Isolated m path) (hm : snapshot.messageId ≠ m) : s'.files path = s.files path := by
  cases recoverIntent_cases h with
  | inl hn   => rw [hn.right]
  | inr hrec =>
    have ⟨row, hr, hrec⟩ := hrec
    have ⟨hm', hid⟩ := OutboxDb.row?_eq_some_iff.mp hr
    exact hrec.frame <| hi row hm' (hid ▸ hm)

-- An intent that does not exist is not invented, and its paths stay as they are.
theorem recover_absent (h : recover sha256 s = .ok s') (hr : s.db.row? m = none)
    (hi : s.db.Isolated m path) : s'.db.row? m = none ∧ s'.files path = s.files path := by
  refine (foldlM_recoverIntent_invariant (I := fun t => (t.db.row? m = none ∧
    t.files path = s.files path) ∧ t.db.Isolated m path) ?_ ⟨⟨hr, rfl⟩, hi⟩ h).left
  intro t t' a ⟨⟨hr, hf⟩, hi⟩ h
  by_cases hm : a.messageId = m
  case neg =>
    exact ⟨⟨(recoverIntent_others h (Ne.symm hm)).trans hr, (recoverIntent_frame h hi hm).trans hf⟩,
      recoverIntent_isolated h hi⟩
  case pos =>
    subst hm
    cases recoverIntent_cases h with
    | inl hn   => rw [hn.right]; exact ⟨⟨hr, hf⟩, hi⟩
    | inr hrec =>
      have ⟨row, hr', _⟩ := hrec
      cases hr.symm.trans hr'

theorem recover_outcome (h : recover sha256 s = .ok s') (hr : s.db.row? m = some row)
    (hc : row.supersededBy = none) (hs : row.staging = some staging)
    (hne : staging ≠ row.relativePath) (hd : row.state ≠ .delivered)
    (hb : row.state ≠ .rebaseRequired) (hp : s.db.Isolated m row.relativePath)
    (hi : s.db.Isolated m staging) :
    (s'.files row.relativePath, s'.db.row? m) =
        outcome sha256 row (s.files row.relativePath) (s.files staging) ∧
      s'.files staging = none := by
  have hid := OutboxDb.messageId_of_row? hr
  let before (t : Project) : Prop :=
    t.files row.relativePath = s.files row.relativePath ∧ t.files staging = s.files staging ∧
      t.db.row? m = some row ∧ t.db.Isolated m row.relativePath ∧ t.db.Isolated m staging
  let after (t : Project) : Prop :=
    ((t.files row.relativePath, t.db.row? m) =
        outcome sha256 row (s.files row.relativePath) (s.files staging) ∧
      t.files staging = none) ∧
    (∀ row', t.db.row? m = some row' → row'.Settled t.files ∧ row'.staging = some staging) ∧
    t.db.Isolated m row.relativePath ∧ t.db.Isolated m staging
  refine (foldlM_recoverIntent_visits (m := m) (B := before) (A := after) ?_ ?_ ?_ ?_ ?_ h).left
  · intro t t' a hm ⟨htarget, hstaging, hrow, hp, hi⟩ h
    exact ⟨(recoverIntent_frame h hp hm).trans htarget, (recoverIntent_frame h hi hm).trans hstaging,
      (recoverIntent_others h hm.symm).trans hrow, recoverIntent_isolated h hp,
      recoverIntent_isolated h hi⟩
  · intro t t' a hm ⟨htarget, hstaging, hrow, hp, hi⟩ h
    subst hm
    have hrec := recoverIntent_recovers h hrow
    have ho := outcome_of_recovers hrec (hid ▸ hrow) hc hs hne hd hb
    rw [htarget, hstaging, hid] at ho
    refine ⟨ho, fun row' hr' => ?_, recoverIntent_isolated h hp, recoverIntent_isolated h hi⟩
    have ⟨hset, _, hst⟩ := hrec.settled (hid ▸ hrow) (hid ▸ hr')
    exact ⟨hset, by rw [ChangeIntent.staging, hst]; exact hs⟩
  · intro t t' a ⟨ho, hset, hp, hi⟩ h
    by_cases hm : a.messageId = m
    case neg =>
      have hstaging := recoverIntent_frame h hi hm
      have hrow := recoverIntent_others h (Ne.symm hm)
      rw [← recoverIntent_frame h hp hm, ← hrow, ← hstaging] at ho
      refine ⟨ho, fun row' hr' => ?_, recoverIntent_isolated h hp, recoverIntent_isolated h hi⟩
      have ⟨hset, hs'⟩ := hset row' (hrow ▸ hr')
      refine ⟨hset.congr fun path hp => ?_, hs'⟩
      cases hs'.symm.trans hp
      exact hstaging
    case pos =>
      subst hm
      cases recoverIntent_cases h with
      | inl hn   => rw [hn.right]; exact ⟨ho, hset, hp, hi⟩
      | inr hrec =>
        have ⟨row', hr', hrec⟩ := hrec
        rw [hrec.eq_self (hset row' hr').left]
        exact ⟨ho, hset, hp, hi⟩
  · exact ⟨rfl, rfl, hr, hp, hi⟩
  · exact hid ▸ List.mem_map_of_mem (OutboxDb.mem_intents.mpr (OutboxDb.row?_eq_some_iff.mp hr).left)

end Isolated
end Outbox
