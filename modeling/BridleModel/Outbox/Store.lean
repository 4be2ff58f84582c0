import Mathlib.Data.List.Sort
import BridleModel.Library.Except
import BridleModel.Library.Table
import BridleModel.Outbox.Files

namespace Outbox

inductive ChangeType
  | add
  | modify
  | remove
  | rename
deriving DecidableEq, Repr

inductive OutboxState
  | reserved
  | committing
  | ready
  | delivered
  | rebaseRequired
deriving DecidableEq, Repr

-- The states IN ('RESERVED', 'COMMITTING', 'REBASE_REQUIRED')
def OutboxState.blocking : OutboxState → Bool
  | reserved | committing | rebaseRequired => true
  | ready | delivered                      => false

structure ChangeIntent where
  messageId    : String
  relativePath : String
  oldPath      : Option String
  changeType   : ChangeType
  beforeDigest : String
  afterDigest  : String
  stagingPath  : Option String
  state        : OutboxState
  fenceToken   : Nat
  supersededBy : Option String
  attempt      : Nat
  nextRetryAt  : Option String
  createdAt    : String
deriving DecidableEq, Repr

inductive IntentKey
  | message (messageId : String)
  | inflight (relativePath : String)
deriving DecidableEq, Repr

namespace ChangeIntent

variable {row row' : ChangeIntent}

-- The condition of the partial unique index
def inflight (row : ChangeIntent) : Bool :=
  row.supersededBy = none ∧ row.state.blocking

def active (row : ChangeIntent) : Bool :=
  row.supersededBy = none ∧ row.state ≠ .delivered

def keys (row : ChangeIntent) : List IntentKey :=
  .message row.messageId :: if row.inflight then [.inflight row.relativePath] else []

-- `_staging`
def staging (row : ChangeIntent) : Option String :=
  row.stagingPath.filter (· ≠ "")

theorem message_mem_keys {m : String} : IntentKey.message m ∈ row.keys ↔ row.messageId = m := by
  cases h : row.inflight <;> simp [keys, h, eq_comm]

theorem inflight_mem_keys {path : String} :
    IntentKey.inflight path ∈ row.keys ↔ row.inflight = true ∧ row.relativePath = path := by
  cases h : row.inflight <;> simp [keys, h, eq_comm]

-- An update keeps the message and the path, and it does not bring the row into the partial index.
theorem keys_subset (hm : row'.messageId = row.messageId)
    (hp : row'.relativePath = row.relativePath)
    (hi : row'.inflight = true → row.inflight = true) : row'.keys ⊆ row.keys := by
  intro k hk
  cases k with
  | message m     => exact message_mem_keys.mpr <| hm ▸ message_mem_keys.mp hk
  | inflight path =>
    have ⟨h, he⟩ := inflight_mem_keys.mp hk
    exact inflight_mem_keys.mpr ⟨hi h, hp ▸ he⟩

end ChangeIntent

-- The table `change_intents`.
abbrev OutboxDb :=
  Table ChangeIntent ChangeIntent.keys

inductive ReserveResult
  | reserved (intent : ChangeIntent)
  | refused (errorCode : String)
deriving DecidableEq, Repr

namespace OutboxDb

-- `get`
def row? (db : OutboxDb) (messageId : String) : Option ChangeIntent :=
  db.lookup (.message messageId)

-- `intents`: ORDER BY created_at, message_id
def intents (db : OutboxDb) : List ChangeIntent :=
  db.rows.insertionSort fun a b =>
    a.createdAt < b.createdAt ∨ (a.createdAt = b.createdAt ∧ a.messageId ≤ b.messageId)

def activeCount (db : OutboxDb) : Nat :=
  db.rows.countP (·.active)

-- `SELECT COALESCE(MAX(fence_token), 0) ... WHERE relative_path = ?`
def maxFence (db : OutboxDb) (path : String) : Nat :=
  ((db.rows.filter (·.relativePath = path)).map (·.fenceToken)).foldr max 0

def supersede (db : OutboxDb) (blocker : ChangeIntent) (messageId : String) : OutboxDb :=
  db.modify
    (fun row => row.messageId = blocker.messageId ∧ row.state = .rebaseRequired ∧
      row.supersededBy = none)
    ({ · with supersededBy := some messageId })
    (fun row h => ChangeIntent.keys_subset rfl rfl (by simp [ChangeIntent.inflight]))

def replacedCount (blocker : Option ChangeIntent) : Nat :=
  if blocker.any (·.state = .rebaseRequired) then 1 else 0

def reserve (capacity : Nat) (db : OutboxDb) (relativePath : String) (oldPath : Option String)
    (changeType : ChangeType) (beforeDigest afterDigest : String) (stagingPath : Option String)
    (messageId now : String) : Except OutboxError (OutboxDb × ReserveResult) := do
  let normalized ← normalizePath relativePath
  let normalizedOld ← oldPath.mapM normalizePath
  let blocker := db.lookup (.inflight normalized)
  if capacity ≤ db.activeCount - replacedCount blocker then
    return (db, .refused "outbox_capacity")
  else if blocker.any (·.state ≠ .rebaseRequired) then
    return (db, .refused "outbox_path_busy")
  else
    let intent := {
      messageId
      relativePath := normalized
      oldPath      := normalizedOld
      changeType, beforeDigest, afterDigest, stagingPath
      state        := .reserved
      fenceToken   := db.maxFence normalized + 1
      supersededBy := none
      attempt      := 0
      nextRetryAt  := none
      createdAt    := now
    }
    let superseded := blocker.elim db (db.supersede · messageId)
    match superseded.insert? intent with
    | none    => throw .integrity
    | some db => return (db, .reserved intent)

-- The updates that check the state and the fence token of the intent: `none` if the row has moved on.
def fenced (db : OutboxDb) (intent : ChangeIntent) (expected : OutboxState)
    (f : ChangeIntent → ChangeIntent)
    (h : ∀ row, row.state = expected → row.supersededBy = none → (f row).keys ⊆ row.keys) :
    OutboxDb × Option ChangeIntent :=
  let guard (row : ChangeIntent) : Bool := row.messageId = intent.messageId ∧
    row.state = expected ∧ row.fenceToken = intent.fenceToken ∧ row.supersededBy = none
  let updated := db.modify guard f (by
    intro row hg
    simp only [guard, decide_eq_true_eq] at hg
    exact h row hg.2.1 hg.2.2.2)
  (updated, if db.rowcount guard = 1 then row? updated intent.messageId else none)

theorem blocking_committing {state : OutboxState} (_ : state.blocking = true) :
    OutboxState.committing.blocking = true :=
  rfl

-- `_transition`
def transition (db : OutboxDb) (intent : ChangeIntent) (state expected : OutboxState)
    (h : state.blocking = true → expected.blocking = true := by decide) :
    OutboxDb × Option ChangeIntent :=
  db.fenced intent expected ({ · with state }) fun _ hs hn =>
    ChangeIntent.keys_subset rfl rfl (by simpa [ChangeIntent.inflight, hs, hn] using h)

def markCommitting (db : OutboxDb) (intent : ChangeIntent) : OutboxDb × Option ChangeIntent :=
  db.transition intent .committing .reserved

def markReady (db : OutboxDb) (intent : ChangeIntent) : OutboxDb × Option ChangeIntent :=
  db.transition intent .ready .committing

-- `_take_fence`
def takeFence (db : OutboxDb) (intent : ChangeIntent) : OutboxDb × Option ChangeIntent :=
  db.fenced intent .committing (fun row => { row with fenceToken := intent.fenceToken + 1 })
    fun _ _ _ => ChangeIntent.keys_subset rfl rfl id

-- The DELETE of `abandon_reserved`
def abandonReserved (db : OutboxDb) (intent : ChangeIntent) : OutboxDb :=
  db.delete fun row => row.messageId = intent.messageId ∧ row.state = .reserved ∧
    row.fenceToken = intent.fenceToken

-- The DELETE of `recover`, with its `rowcount`
def dropReserved (db : OutboxDb) (intent : ChangeIntent) : OutboxDb × Nat :=
  let guard (row : ChangeIntent) : Bool := row.messageId = intent.messageId ∧
    row.state = .reserved ∧ row.fenceToken = intent.fenceToken ∧ row.supersededBy = none
  (db.delete guard, db.rowcount guard)

section Rows

variable {db db' : OutboxDb} {intent row : ChangeIntent} {m : String} {expected : OutboxState}
  {f : ChangeIntent → ChangeIntent}

theorem row?_eq_some_iff : db.row? m = some row ↔ row ∈ db ∧ row.messageId = m := by
  rw [row?, Table.lookup_eq_some_iff, ChangeIntent.message_mem_keys]

theorem row?_of_mem (h : row ∈ db) : db.row? row.messageId = some row :=
  row?_eq_some_iff.mpr ⟨h, rfl⟩

theorem messageId_of_row? (h : db.row? m = some row) : row.messageId = m :=
  row?_eq_some_iff.mp h |>.right

theorem mem_intents : row ∈ db.intents ↔ row ∈ db :=
  List.mem_insertionSort _

theorem row?_modify {p : ChangeIntent → Bool} {h} (hf : ∀ row, (f row).messageId = row.messageId) :
    row? (db.modify p f h) m = (db.row? m).map fun row => if p row then f row else row := by
  rw [row?, Table.lookup_modify]
  change ((db.row? m).map _).filter _ = _
  cases hr : db.row? m with
  | none     => rfl
  | some row =>
    have hm := messageId_of_row? hr
    rw [Option.map_some, Option.filter_some_pos]
    have : (if p row then f row else row).messageId = m := by split <;> simp [hf, hm]
    simpa using ChangeIntent.message_mem_keys.mpr this

theorem row?_delete {p : ChangeIntent → Bool} : row? (db.delete p) m = (db.row? m).filter (!p ·) :=
  Table.lookup_delete _

-- The row is still as the caller has read it.
structure Held (db : OutboxDb) (intent row : ChangeIntent) (expected : OutboxState) : Prop where
  found   : db.row? intent.messageId = some row
  state   : row.state = expected
  fence   : row.fenceToken = intent.fenceToken
  current : row.supersededBy = none

theorem fenced_snd {h} (hh : db.Held intent row expected)
    (hf : ∀ row, (f row).messageId = row.messageId) :
    (db.fenced intent expected f h).2 = some (f row) := by
  have hm := messageId_of_row? hh.found
  unfold fenced
  dsimp only
  rw [if_pos]
  · rw [row?_modify hf, hh.found]
    simp [hh.state, hh.fence, hh.current, hm]
  · refine (Table.rowcount_eq_one_iff (k := IntentKey.message intent.messageId) ?_).mpr ⟨row, hh.found, ?_⟩
    · intro a ha
      simp only [decide_eq_true_eq] at ha
      exact ChangeIntent.message_mem_keys.mpr ha.1
    · simp [hh.state, hh.fence, hh.current, hm]

theorem fenced_row? {h} (hh : db.Held intent row expected)
    (hf : ∀ row, (f row).messageId = row.messageId) :
    (db.fenced intent expected f h).1.row? m =
      if m = intent.messageId then some (f row) else db.row? m := by
  unfold fenced
  dsimp only
  rw [row?_modify hf]
  split
  case isTrue hm =>
    subst hm
    simp [hh.found, hh.state, hh.fence, hh.current, messageId_of_row? hh.found]
  case isFalse hm =>
    cases hr : db.row? m with
    | none      => rfl
    | some row' => simp [messageId_of_row? hr, hm]

-- A fenced update of a row that is still held by the caller.
structure Advances (db : OutboxDb) (row : ChangeIntent) (db' : OutboxDb) (row' : ChangeIntent) :
    Prop where
  found  : db'.row? row.messageId = some row'
  others : ∀ m, m ≠ row.messageId → db'.row? m = db.row? m

theorem fenced_advances {h} (hh : db.Held intent row expected)
    (hf : ∀ row, (f row).messageId = row.messageId) :
    ∃ db', db.fenced intent expected f h = (db', some (f row)) ∧ db.Advances row db' (f row) := by
  have hm := messageId_of_row? hh.found
  refine ⟨_, Prod.ext rfl (fenced_snd hh hf), ?_, fun m hne => ?_⟩
  · rw [hm, fenced_row? hh hf, if_pos rfl]
  · rw [fenced_row? hh hf, if_neg (hm ▸ hne)]

theorem transition_advances (state : OutboxState) (h) (hh : db.Held intent row expected) :
    ∃ db', db.transition intent state expected h = (db', some { row with state }) ∧
      db.Advances row db' { row with state } :=
  fenced_advances hh fun _ => rfl

theorem takeFence_advances (hh : db.Held intent row .committing) :
    ∃ db', db.takeFence intent = (db', some { row with fenceToken := intent.fenceToken + 1 }) ∧
      db.Advances row db' { row with fenceToken := intent.fenceToken + 1 } :=
  fenced_advances hh fun _ => rfl

theorem Advances.trans {db'' : OutboxDb} {row' row'' : ChangeIntent} (h₁ : db.Advances row db' row')
    (h₂ : db'.Advances row' db'' row'') (hm : row'.messageId = row.messageId) :
    db.Advances row db'' row'' where
  found      := hm ▸ h₂.found
  others m h := (h₂.others m (hm ▸ h)).trans (h₁.others m h)

theorem dropReserved_snd (hh : db.Held intent row .reserved) : (db.dropReserved intent).2 = 1 := by
  have hm := messageId_of_row? hh.found
  unfold dropReserved
  dsimp only
  refine (Table.rowcount_eq_one_iff (k := IntentKey.message intent.messageId) ?_).mpr
    ⟨row, hh.found, ?_⟩
  · intro a ha
    simp only [decide_eq_true_eq] at ha
    exact ChangeIntent.message_mem_keys.mpr ha.1
  · simp [hh.state, hh.fence, hh.current, hm]

theorem dropReserved_row? (hh : db.Held intent row .reserved) :
    (db.dropReserved intent).1.row? m = if m = intent.messageId then none else db.row? m := by
  unfold dropReserved
  dsimp only
  rw [row?_delete]
  split
  case isTrue hm =>
    subst hm
    simp [hh.found, hh.state, hh.fence, hh.current, messageId_of_row? hh.found]
  case isFalse hm =>
    cases hr : db.row? m with
    | none      => rfl
    | some row' => simp [messageId_of_row? hr, hm]

theorem abandonReserved_row? (hh : db.Held intent row .reserved) :
    (db.abandonReserved intent).row? m = if m = intent.messageId then none else db.row? m := by
  rw [abandonReserved, row?_delete]
  split
  case isTrue hm =>
    subst hm
    simp [hh.found, hh.state, hh.fence, messageId_of_row? hh.found]
  case isFalse hm =>
    cases hr : db.row? m with
    | none      => rfl
    | some row' => simp [messageId_of_row? hr, hm]

end Rows

-- What a granted reservation does.
structure Reserves (db : OutboxDb) (intent : ChangeIntent) (db' : OutboxDb) : Prop where
  fresh  : db.row? intent.messageId = none
  found  : db'.row? intent.messageId = some intent
  others : ∀ m, m ≠ intent.messageId → db'.row? m = db.row? m ∨
    ∃ row, db.row? m = some row ∧ row.state = .rebaseRequired ∧
      db'.row? m = some { row with supersededBy := some intent.messageId }
  free   : ∀ row ∈ db', row.inflight = true → row.relativePath = intent.relativePath →
    row.messageId = intent.messageId

section Reserve

variable {db db' : OutboxDb} {capacity : Nat} {path before after messageId now : String}
  {old staging : Option String} {type : ChangeType} {result : ReserveResult} {row : ChangeIntent}

theorem row?_supersede {m : String} : (db.supersede row messageId).row? m =
    (db.row? m).map fun r =>
      if r.messageId = row.messageId ∧ r.state = .rebaseRequired ∧ r.supersededBy = none then
        { r with supersededBy := some messageId }
      else
        r := by
  have h : row? (db.modify _ _ _) m = _ := row?_modify (f := ({ · with supersededBy := some messageId }))
    (p := fun r => r.messageId = row.messageId ∧ r.state = .rebaseRequired ∧ r.supersededBy = none)
    (h := fun _ _ => ChangeIntent.keys_subset rfl rfl (by simp [ChangeIntent.inflight]))
    (fun _ => rfl)
  simp only [decide_eq_true_eq] at h
  exact h

theorem row?_insert (h : db.insert? row = some db') {m : String} (hm : m ≠ row.messageId) :
    db'.row? m = db.row? m := by
  rw [row?, Table.lookup_insert? h, if_neg (ChangeIntent.message_mem_keys.not.mpr hm.symm), row?]

theorem Reserves.of_insert (hi : row.inflight = true)
    (h : ((db.lookup (.inflight row.relativePath)).elim db (db.supersede · row.messageId)).insert?
      row = some db') : db.Reserves row db' := by
  have hmem : row ∈ db' := (Table.mem_insert? h).mpr (.inr rfl)
  refine {
    fresh  := ?_
    found  := row?_of_mem hmem
    others := ?_
    free   := ?_
  }
  · refine Table.lookup_eq_none_iff.mpr fun a ha hk => ?_
    have hk := ChangeIntent.message_mem_keys.mp hk
    have fresh {t : OutboxDb} {b : ChangeIntent} (hi : t.insert? row = some db') (hb : b ∈ t) :
        b.messageId ≠ row.messageId := fun he =>
      Table.insert?_fresh hi hb (ChangeIntent.message_mem_keys.mpr he)
        (ChangeIntent.message_mem_keys.mpr rfl)
    cases hl : db.lookup (.inflight row.relativePath) with
    | none   => rw [hl] at h; exact fresh h ha hk
    | some b =>
      rw [hl] at h
      have hr : (db.supersede b row.messageId).row? row.messageId ≠ none := by
        rw [row?_supersede, row?_eq_some_iff.mpr ⟨ha, hk⟩]
        simp
      have ⟨c, hc⟩ := Option.ne_none_iff_exists'.mp hr
      have ⟨hc, hk⟩ := row?_eq_some_iff.mp hc
      exact fresh h hc hk
  · intro m hm
    cases hl : db.lookup (.inflight row.relativePath) with
    | none   => rw [hl] at h; exact .inl <| row?_insert h hm
    | some b =>
      rw [hl] at h
      rw [row?_insert h hm, Option.elim_some, row?_supersede]
      cases hr : db.row? m with
      | none   => exact .inl rfl
      | some r =>
        rw [Option.map_some]
        split
        case isFalse   => exact .inl rfl
        case isTrue hb => exact .inr ⟨r, rfl, hb.2.1, rfl⟩
  · intro a ha hia hp
    have := Table.eq_of_mem_keys (k := IntentKey.inflight row.relativePath) ha hmem
      (ChangeIntent.inflight_mem_keys.mpr ⟨hia, hp⟩) (ChangeIntent.inflight_mem_keys.mpr ⟨hi, rfl⟩)
    rw [this]

theorem reserve_cases
    (h : db.reserve capacity path old type before after staging messageId now = .ok (db', result)) :
    ∃ normalized normalizedOld, normalizePath path = .ok normalized ∧
      old.mapM normalizePath = .ok normalizedOld ∧
      ((db' = db ∧ ∃ code, result = .refused code) ∨
        ∃ intent, result = .reserved intent ∧ db.Reserves intent db' ∧ intent = {
          messageId, relativePath := normalized, oldPath := normalizedOld, changeType := type
          beforeDigest := before, afterDigest := after, stagingPath := staging, state := .reserved
          fenceToken := db.maxFence normalized + 1, supersededBy := none, attempt := 0
          nextRetryAt := none, createdAt := now
        }) := by
  have ⟨normalized, hn, h⟩ := Except.bind_eq_ok_iff.mp h
  have ⟨normalizedOld, ho, h⟩ := Except.bind_eq_ok_iff.mp h
  refine ⟨normalized, normalizedOld, hn, ho, ?_⟩
  dsimp only at h
  split at h
  case isTrue => cases h; exact .inl ⟨rfl, _, rfl⟩
  split at h
  case isTrue => cases h; exact .inl ⟨rfl, _, rfl⟩
  split at h
  case h_1         => cases h
  case h_2 insert => cases h; exact .inr ⟨_, rfl, .of_insert rfl insert, rfl⟩

theorem reserve_empty {recorded : String} (hc : 0 < capacity)
    (hp : normalizePath path = .ok recorded) :
    ∃ db i, reserve capacity .empty path none type before after staging messageId now =
      .ok (db, .reserved i) := by
  have hn : ¬capacity ≤ 0 := Nat.not_le_of_lt hc
  unfold reserve
  rw [hp]
  simp [bind, Except.bind, pure, Except.pure, activeCount, Table.insert?, hn]

end Reserve

end OutboxDb
end Outbox
