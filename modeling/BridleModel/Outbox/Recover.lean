import BridleModel.Outbox.Store

namespace Outbox

-- What a crash leaves behind: the files of the project and `.bridle/change_outbox.db`.
structure Project where
  files : Files
  db    : OutboxDb

-- `_cleanup_staging`
def cleanupStaging (files : Files) (intent : ChangeIntent) : Files :=
  match intent.staging with
  | none         => files
  | some staging => files.unlink staging

section Recover

variable (sha256 : Bytes → String)

-- `_replay`
def replay (files : Files) (intent : ChangeIntent) : Files × Bool :=
  let target := intent.relativePath
  match intent.staging with
  | none         => (files, false)
  | some staging =>
    if intent.changeType = .remove then
      if files target = none ∨ files staging ≠ none then
        (files, false)
      else
        match files.replace target staging with
        | none       => (files, false)
        | some files => (files, fileDigest sha256 (files target) = intent.afterDigest)
    else if fileDigest sha256 (files staging) ≠ intent.afterDigest then
      (files, false)
    else
      match files.replace staging target with
      | none       => (files, false)
      | some files => (files, fileDigest sha256 (files target) = intent.afterDigest)

-- The condition of `_recover_committing`, which may replay the change
def landed (files : Files) (intent : ChangeIntent) : Files × Bool :=
  let current := fileDigest sha256 (files intent.relativePath)
  if current = intent.afterDigest then
    (files, true)
  else if current = intent.beforeDigest then
    replay sha256 files intent
  else
    (files, false)

-- `_recover_committing`
def recoverCommitting (s : Project) (intent : ChangeIntent) : Project :=
  let (files, ready) := landed sha256 s.files intent
  let (db, row) :=
    if ready then s.db.markReady intent else s.db.transition intent .rebaseRequired .committing
  match row with
  | none     => { files, db }
  | some row => { files := cleanupStaging files row, db }

-- The body of the loop of `recover`. Its `path_lock` normalizes the path.
def recoverIntent (s : Project) (snapshot : ChangeIntent) : Except OutboxError Project := do
  let _ ← normalizePath snapshot.relativePath
  match s.db.row? snapshot.messageId with
  | none        => return s
  | some intent =>
    if intent.supersededBy ≠ none then
      return { s with files := cleanupStaging s.files intent }
    else
      match intent.state with
      | .reserved =>
        let (db, count) := s.db.dropReserved intent
        if count = 1 then
          return { files := cleanupStaging s.files intent, db }
        else
          return { s with db }
      | .ready => return { s with files := cleanupStaging s.files intent }
      | .committing =>
        match s.db.takeFence intent with
        | (db, none)       => return { s with db }
        | (db, some owned) => return recoverCommitting sha256 { s with db } owned
      | .delivered | .rebaseRequired => return s

def recover (s : Project) : Except OutboxError Project :=
  s.db.intents.foldlM (recoverIntent sha256) s

end Recover

namespace ChangeIntent

-- The row as recovery leaves it in the state COMMITTING
def recovered (row : ChangeIntent) (ready : Bool) : ChangeIntent :=
  {
    row with
    state := if ready then .ready else .rebaseRequired, fenceToken := row.fenceToken + 1
  }

end ChangeIntent

-- What recovery does to the intent `row` of `s`.
inductive Recovers (sha256 : Bytes → String) (s : Project) (row : ChangeIntent) : Project → Prop
  | none (current : row.supersededBy = none)
      (state : row.state = .delivered ∨ row.state = .rebaseRequired) : Recovers sha256 s row s
  | cleanup (state : row.supersededBy ≠ none ∨ row.state = .ready) :
      Recovers sha256 s row { s with files := cleanupStaging s.files row }
  | reserved (current : row.supersededBy = none) (state : row.state = .reserved)
      (gone : db.row? row.messageId = .none)
      (others : ∀ m, m ≠ row.messageId → db.row? m = s.db.row? m) :
      Recovers sha256 s row { files := cleanupStaging s.files row, db }
  | committing (current : row.supersededBy = none) (state : row.state = .committing)
      (landed : landed sha256 s.files row = (files, ready))
      (advances : s.db.Advances row db (row.recovered ready)) :
      Recovers sha256 s row { files := cleanupStaging files row, db }

section Recovers

variable {sha256 : Bytes → String} {s s' : Project} {row snapshot : ChangeIntent} {path : String}

theorem recoverCommitting_recovers (sha256 : Bytes → String) (hh : s.db.Held row row .committing) :
    ∃ db, s.db.takeFence row = (db, some { row with fenceToken := row.fenceToken + 1 }) ∧
      Recovers sha256 s row (recoverCommitting sha256 { s with db }
        { row with fenceToken := row.fenceToken + 1 }) := by
  have ⟨db, hf, h₁⟩ := OutboxDb.takeFence_advances hh
  refine ⟨db, hf, ?_⟩
  have held : db.Held { row with fenceToken := row.fenceToken + 1 }
      { row with fenceToken := row.fenceToken + 1 } .committing := {
    found   := h₁.found
    state   := hh.state
    fence   := rfl
    current := hh.current
  }
  unfold recoverCommitting
  -- The fence token has no part in the replay.
  generalize hl : landed sha256 _ _ = out
  have hl : landed sha256 s.files row = out := hl
  obtain ⟨files, ready⟩ := out
  cases ready with
  | true  =>
    have ⟨db', ht, h₂⟩ := OutboxDb.transition_advances .ready (by decide) held
    simp only [OutboxDb.markReady, ht, if_true]
    exact .committing hh.current hh.state hl (h₁.trans h₂ rfl)
  | false =>
    have ⟨db', ht, h₂⟩ := OutboxDb.transition_advances .rebaseRequired (by decide) held
    simp only [ht, Bool.false_eq_true, if_false]
    exact .committing hh.current hh.state hl (h₁.trans h₂ rfl)

theorem recoverIntent_recovers (h : recoverIntent sha256 s snapshot = .ok s')
    (hr : s.db.row? snapshot.messageId = some row) : Recovers sha256 s row s' := by
  have hm := OutboxDb.messageId_of_row? hr
  have held {state : OutboxState} (hs : row.state = state) (hc : row.supersededBy = none) :
      s.db.Held row row state := ⟨hm ▸ hr, hs, rfl, hc⟩
  have ⟨_, _, h⟩ := Except.bind_eq_ok_iff.mp h
  rw [hr] at h
  dsimp only at h
  split at h
  case isTrue hs => cases h; exact .cleanup (.inl hs)
  case isFalse hn =>
    have hc : row.supersededBy = none := Decidable.not_not.mp hn
    split at h
    case h_1 hs =>
      have hd (m : String) : (s.db.dropReserved row).1.row? m = _ :=
        OutboxDb.dropReserved_row? (held hs hc)
      rw [if_pos (OutboxDb.dropReserved_snd (held hs hc))] at h
      cases h
      exact .reserved hc hs ((hd _).trans (if_pos rfl)) fun m hm => (hd m).trans (if_neg hm)
    case h_2 hs => cases h; exact .cleanup (.inr hs)
    case h_3 hs =>
      have ⟨db, hf, hrec⟩ := recoverCommitting_recovers sha256 (held hs hc)
      rw [hf] at h
      cases h
      exact hrec
    case h_4 hs => cases h; exact .none hc (.inl hs)
    case h_5 hs => cases h; exact .none hc (.inr hs)

end Recovers

end Outbox
