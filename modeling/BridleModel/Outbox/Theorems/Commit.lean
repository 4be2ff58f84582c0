import BridleModel.Outbox.Commit
import BridleModel.Outbox.Theorems.Recover

namespace Outbox

-- The intent `row` records the change `l`, which starts from a file with the content `source`.
structure Describes (sha256 : Bytes → String) (m : String) (l : Locals) (source : Option Bytes)
    (row : ChangeIntent) : Prop where
  messageId : row.messageId = m
  recorded  : normalizePath l.path = .ok row.relativePath
  staging   : row.staging = some l.staging
  before    : row.beforeDigest = fileDigest sha256 source
  after     : row.afterDigest = fileDigest sha256 l.content
  removes   : row.changeType = .remove ↔ l.content = none
  current   : row.supersededBy = none

-- The windows before a change to a file with the content `old` is marked COMMITTING.
inductive Uncommitted (sha256 : Bytes → String) (m : String) (l : Locals) (old source : Option Bytes)
    (s : Project) : Prop
  | absent (row : s.db.row? m = none) (target : s.files l.path = old)
      (staging : s.files l.staging = none)
  | reserved (row : s.db.row? m = some i) (describes : Describes sha256 m l source i)
      (state : i.state = .reserved) (target : s.files l.path = old)

-- The windows after that, in which the file can be brought to its new content.
inductive Committed (sha256 : Bytes → String) (m : String) (l : Locals) (old source : Option Bytes)
    (s : Project) : Prop
  | committing (row : s.db.row? m = some i) (describes : Describes sha256 m l source i)
      (state : i.state = .committing) (target : s.files l.path = old)
      (staging : s.files l.staging = l.content)
      (replayable : fileDigest sha256 old = fileDigest sha256 source)
  | replaced (row : s.db.row? m = some i) (describes : Describes sha256 m l source i)
      (state : i.state = .committing) (target : s.files l.path = l.content)
  | ready (row : s.db.row? m = some i) (describes : Describes sha256 m l source i)
      (state : i.state = .ready) (target : s.files l.path = l.content)

-- SHA-256 tells the contents at hand apart.
def CollisionFree (sha256 : Bytes → String) (c₁ c₂ : Option Bytes) : Prop :=
  ∀ b₁ b₂, c₁ = some b₁ → c₂ = some b₂ → sha256 b₁ = sha256 b₂ → b₁ = b₂

theorem CollisionFree.none_left {sha256 : Bytes → String} {c : Option Bytes} :
    CollisionFree sha256 none c :=
  fun _ _ h => by cases h

theorem CollisionFree.eq {sha256 : Bytes → String} {c₁ c₂ : Option Bytes}
    (h : CollisionFree sha256 c₁ c₂) (he : fileDigest sha256 c₁ = fileDigest sha256 c₂) : c₁ = c₂ := by
  cases c₁ with
  | none =>
    cases c₂ with
    | none   => rfl
    | some _ => exact absurd he.symm bytesDigest_ne_missing
  | some b₁ =>
    cases c₂ with
    | none   => exact absurd he bytesDigest_ne_missing
    | some _ => rw [h _ _ rfl rfl (bytesDigest_inj he)]

-- The change has not happened, and nothing is left of its intent.
structure RolledBack (m : String) (l : Locals) (old : Option Bytes) (s : Project) : Prop where
  target : s.files l.path = old
  row    : s.db.row? m = none

-- The change has happened, and its intent is to be published.
structure Done (m : String) (l : Locals) (s : Project) : Prop where
  target : s.files l.path = l.content
  row    : ∃ i, s.db.row? m = some i ∧ i.state = .ready

section Phase

variable {sha256 : Bytes → String} {m : String} {l : Locals} {old source : Option Bytes}
  {s s' : Project} {i : ChangeIntent}

theorem landing_of_after {target staging : Option Bytes} (d : Describes sha256 m l source i)
    (h : fileDigest sha256 target = fileDigest sha256 l.content) :
    landing sha256 i target staging = (target, true) := by
  rw [landing, d.after, if_pos h]

-- The target is untouched and the new content is staged.
theorem landing_of_before (d : Describes sha256 m l source i)
    (h : fileDigest sha256 old ≠ fileDigest sha256 l.content)
    (hb : fileDigest sha256 old = fileDigest sha256 source) :
    landing sha256 i old l.content = (l.content, true) := by
  rw [landing, d.after, d.before, if_neg h, if_pos hb]
  cases hc : l.content with
  | none     =>
    have hn : old ≠ none := fun hn => h (by rw [hn, hc])
    simp [d.removes.mpr hc, hn, fileDigest]
  | some new =>
    have hr : i.changeType ≠ .remove := fun h => by simp [d.removes.mp h] at hc
    simp [hr]

section Recover

variable (h : recover sha256 s = .ok s') (hl : l.staging ≠ l.path)
  (hs : ∀ recorded, normalizePath l.path = .ok recorded → recorded = l.path)
  (hp : s.db.Isolated m l.path) (hi : s.db.Isolated m l.staging)

include h hl hs hp hi

theorem Describes.recover (row : s.db.row? m = some i) (d : Describes sha256 m l source i)
    (hd : i.state ≠ .delivered) (hb : i.state ≠ .rebaseRequired) :
    (s'.files l.path, s'.db.row? m) = outcome sha256 i (s.files l.path) (s.files l.staging) ∧
      s'.files l.staging = none := by
  have hpath : i.relativePath = l.path := hs _ d.recorded
  have ho := recover_outcome h row d.current d.staging (hpath ▸ hl) hd hb (hpath ▸ hp) hi
  rw [hpath] at ho
  exact ho

theorem Uncommitted.recover (phase : Uncommitted sha256 m l old source s) :
    RolledBack m l old s' ∧ s'.files l.staging = none := by
  cases phase
  case absent row target staging =>
    have ⟨hr, ht⟩ := recover_absent h row hp
    have ⟨_, hst⟩ := recover_absent h row hi
    exact ⟨⟨ht.trans target, hr⟩, hst.trans staging⟩
  case reserved i row d state target =>
    have ⟨ho, hst⟩ := d.recover h hl hs hp hi row (by simp [state]) (by simp [state])
    simp only [outcome, state, Prod.mk.injEq] at ho
    exact ⟨⟨ho.left.trans target, ho.right⟩, hst⟩

-- Recovery decides by the digests whether the file is already at its new content.
theorem Committed.recover (hc : CollisionFree sha256 old l.content)
    (phase : Committed sha256 m l old source s) : Done m l s' ∧ s'.files l.staging = none := by
  cases phase
  case ready i row d state target =>
    have ⟨ho, hst⟩ := d.recover h hl hs hp hi row (by simp [state]) (by simp [state])
    simp only [outcome, state, Prod.mk.injEq] at ho
    exact ⟨⟨ho.left.trans target, i, ho.right, state⟩, hst⟩
  case replaced i row d state target =>
    have ⟨ho, hst⟩ := d.recover h hl hs hp hi row (by simp [state]) (by simp [state])
    simp only [outcome, state, landing_of_after d (congrArg _ target), Prod.mk.injEq] at ho
    exact ⟨⟨ho.left.trans target, _, ho.right, rfl⟩, hst⟩
  case committing i row d state target staging replayable =>
    have ⟨ho, hst⟩ := d.recover h hl hs hp hi row (by simp [state]) (by simp [state])
    refine ⟨?_, hst⟩
    by_cases he : fileDigest sha256 old = fileDigest sha256 l.content
    case pos =>
      simp only [outcome, state, target, landing_of_after d he, Prod.mk.injEq] at ho
      exact ⟨ho.left.trans (hc.eq he), _, ho.right, rfl⟩
    case neg =>
      simp only [outcome, state, target, staging, landing_of_before d he replayable,
        Prod.mk.injEq] at ho
      exact ⟨ho.left, _, ho.right, rfl⟩

end Recover

theorem Uncommitted.describes (phase : Uncommitted sha256 m l old source s)
    (hr : s.db.row? m = some i) : Describes sha256 m l source i := by
  cases phase with
  | absent row     => cases row.symm.trans hr
  | reserved row d => cases row.symm.trans hr; exact d

theorem Committed.describes (phase : Committed sha256 m l old source s)
    (hr : s.db.row? m = some i) : Describes sha256 m l source i := by
  cases phase with
  | committing row d | replaced row d | ready row d => cases row.symm.trans hr; exact d

end Phase

-- Nobody but the call itself works on the file and on the staging file, and the names that the call
-- draws are fresh.
structure Quiet (s : Project) (m path staging : String) : Prop where
  message   : s.db.row? m = none
  absent    : s.files staging = none
  others    : ∀ row ∈ s.db, row.Untouched path
  fresh     : ∀ row ∈ s.db, row.relativePath ≠ staging ∧ row.staging ≠ some staging
  separated : s.db.Separated
  lockable  : s.db.Lockable

-- The intents other than `own` are as in `db`, but for those that a reservation has superseded.
def OutboxDb.Beside (db : OutboxDb) (own : Set String) (db' : OutboxDb) : Prop :=
  ∀ j, j ∉ own → db'.row? j = db.row? j ∨ ∃ row m, db.row? j = some row ∧
    row.state = .rebaseRequired ∧ db'.row? j = some { row with supersededBy := some m }

namespace OutboxDb

variable {db db' db'' : OutboxDb} {row row' : ChangeIntent} {own : Set String} {path : String}

theorem Beside.refl : db.Beside own db :=
  fun _ _ => .inl rfl

theorem Beside.advances (h : db.Beside own db') (ha : db'.Advances row db'' row')
    (hm : row.messageId ∈ own) : db.Beside own db'' := by
  intro j hj
  rw [ha.others j fun he => hj (he ▸ hm)]
  exact h j hj

theorem Beside.reserves (h : db.Beside own db') (hr : db'.Reserves row db'')
    (hm : row.messageId ∈ own) : db.Beside own db'' := by
  intro j hj
  cases hr.others j fun he => hj (he ▸ hm) with
  | inl he => exact he ▸ h j hj
  | inr he =>
    have ⟨r, hr, hs, he⟩ := he
    rw [he]
    cases h j hj with
    | inl hd => exact .inr ⟨r, _, hd ▸ hr, hs, rfl⟩
    | inr hd =>
      have ⟨r₀, m, hr₀, hs₀, hd⟩ := hd
      cases hr.symm.trans hd
      exact .inr ⟨r₀, _, hr₀, hs₀, rfl⟩

theorem Beside.descends (h : db.Beside own db') (hm : row ∈ db') (hne : row.messageId ∉ own)
    (path : String) :
    ∃ row₀ ∈ db, row₀.messageId = row.messageId ∧ row₀.relativePath = row.relativePath ∧
      row₀.staging = row.staging ∧ (row₀.Untouched path → row.Untouched path) := by
  have hr := row?_of_mem hm
  cases h _ hne with
  | inl he => exact ⟨row, (row?_eq_some_iff.mp (he ▸ hr)).left, rfl, rfl, rfl, id⟩
  | inr he =>
    have ⟨row₀, _, hr₀, hs, he⟩ := he
    cases hr.symm.trans he
    have ⟨hm₀, hid⟩ := row?_eq_some_iff.mp hr₀
    exact ⟨row₀, hm₀, hid, rfl, rfl, fun hu => ⟨hu.left, fun _ hc => by simp [hs] at hc⟩⟩

theorem Beside.untouched (h : db.Beside own db') (hu : ∀ row ∈ db, row.Untouched path)
    (hm : row ∈ db') (hne : row.messageId ∉ own) : row.Untouched path := by
  have ⟨row₀, hm₀, _, _, _, himp⟩ := h.descends hm hne path
  exact himp (hu row₀ hm₀)

end OutboxDb

-- What the call knows of its intent
structure Owned (sha256 : Bytes → String) (m : String) (l : Locals) (source : Option Bytes)
    (state : OutboxState) (i : ChangeIntent) (s : Project) : Prop where
  row       : s.db.row? m = some i
  describes : Describes sha256 m l source i
  state     : i.state = state

section Owned

variable {sha256 : Bytes → String} {m : String} {l : Locals} {source : Option Bytes}
  {state : OutboxState} {i : ChangeIntent} {s : Project} {files : Files}

theorem Owned.held (o : Owned sha256 m l source state i s) : s.db.Held i i state where
  found   := o.describes.messageId ▸ o.row
  state   := o.state
  fence   := rfl
  current := o.describes.current

theorem Owned.of_files (o : Owned sha256 m l source state i s) :
    Owned sha256 m l source state i { s with files } where
  row       := o.row
  describes := o.describes
  state     := o.state

theorem Owned.transition (state' : OutboxState) (h) (o : Owned sha256 m l source state i s) :
    ∃ db, s.db.transition i state' state h = (db, some { i with state := state' }) ∧
      s.db.Advances i db { i with state := state' } ∧
      Owned sha256 m l source state' { i with state := state' } { s with db } := by
  have ⟨db, ht, ha⟩ := OutboxDb.transition_advances state' h o.held
  refine ⟨db, ht, ha, ?_, ?_, rfl⟩
  · exact o.describes.messageId ▸ ha.found
  · exact { o.describes with }

end Owned

namespace CommitCall

variable (sha256 : Bytes → String) (call : CommitCall) (l : Locals) (s₀ : Project)

-- What holds between two operations of the call
def At : Position → Project → Prop
  | .start, s           => s = s₀
  | .reserved l' i, s   => l' = l ∧ Owned sha256 call.messageId l (s₀.files l.path) .reserved i s ∧
    s.files l.path = s₀.files l.path ∧ s.files l.staging = none
  | .writing l' i, s    => l' = l ∧ Owned sha256 call.messageId l (s₀.files l.path) .reserved i s ∧
    s.files l.path = s₀.files l.path
  | .staged l' i, s     => l' = l ∧ Owned sha256 call.messageId l (s₀.files l.path) .reserved i s ∧
    s.files l.path = s₀.files l.path ∧ s.files l.staging = l.content
  | .committing l' i, s =>
    l' = l ∧ Owned sha256 call.messageId l (s₀.files l.path) .committing i s ∧
      s.files l.path = s₀.files l.path ∧ s.files l.staging = l.content
  | .replaced l' i, s   =>
    l' = l ∧ Owned sha256 call.messageId l (s₀.files l.path) .committing i s ∧
      s.files l.path = l.content
  | .ready l' i, s      => l' = l ∧ Owned sha256 call.messageId l (s₀.files l.path) .ready i s ∧
    s.files l.path = l.content
  | .failing l' i, s    => l' = l ∧ s.files l.path = s₀.files l.path ∧
    (Owned sha256 call.messageId l (s₀.files l.path) .reserved i s ∨
      Owned sha256 call.messageId l (s₀.files l.path) .committing i s ∧
        s.files l.staging = l.content)
  | .abandoning l' i, s => l' = l ∧ Owned sha256 call.messageId l (s₀.files l.path) .reserved i s ∧
    s.files l.path = s₀.files l.path ∧ s.files l.staging = none
  | .finished _, s      =>
    Uncommitted sha256 call.messageId l (s₀.files l.path) (s₀.files l.path) s ∨
      Committed sha256 call.messageId l (s₀.files l.path) (s₀.files l.path) s

-- The arguments of the call are in order, and `l` is what it works on.
structure Begins : Prop where
  path    : normalizePath call.relativePath = .ok l.path
  content : newContent call.changeType call.newText = some l.content
  staging : stagingPath l.path (stagingSuffix call.changeType call.token) = .ok l.staging

variable {sha256 call l s₀} {capacity : Nat} {s s' : Project} {p p' : Position} {e : Event}

theorem removes_iff {changeType : ChangeType} {text : Option String} {content : Option Bytes}
    (h : newContent changeType text = some content) : changeType = .remove ↔ content = none := by
  unfold newContent at h
  split at h
  case isTrue ht => cases h; simp [ht]
  case isFalse ht =>
    have ⟨_, _, h⟩ := Option.map_eq_some_iff.mp h
    simp [ht, ← h]

theorem begin_at (b : Begins call l) (q : Quiet s₀ call.messageId l.path l.staging)
    (h : call.begin sha256 capacity s₀ = (s', p')) :
    At sha256 call l s₀ p' s' ∧ s₀.db.Beside {call.messageId} s'.db := by
  have absent : Uncommitted sha256 call.messageId l (s₀.files l.path) (s₀.files l.path) s₀ :=
    .absent q.message rfl q.absent
  have same : s₀.db.Beside {call.messageId} s₀.db := .refl
  unfold begin at h
  rw [b.path] at h
  dsimp only at h
  rw [b.content] at h
  dsimp only at h
  rw [b.staging] at h
  dsimp only at h
  split at h
  case h_1 => cases h; exact ⟨.inl absent, same⟩
  case h_2 hr =>
    have ⟨_, _, _, _, hcases⟩ := OutboxDb.reserve_cases hr
    cases hcases with
    | inl hd => rw [hd.left] at h; cases h; exact ⟨.inl absent, same⟩
    | inr hi => have ⟨_, hn, _⟩ := hi; cases hn
  case h_3 i hr =>
    have ⟨recorded, _, hp, _, hcases⟩ := OutboxDb.reserve_cases hr
    cases hcases with
    | inl hd => have ⟨_, _, hn⟩ := hd; cases hn
    | inr hi =>
      have ⟨_, he, hres, hi⟩ := hi
      cases he
      cases h
      subst hi
      refine ⟨⟨rfl, ⟨hres.found, ?_, rfl⟩, rfl, q.absent⟩, same.reserves hres rfl⟩
      exact {
        messageId := rfl
        recorded  := hp
        staging   := by simp [ChangeIntent.staging, stagingPath_ne_empty b.staging]
        before    := rfl
        after     := rfl
        removes   := removes_iff b.content
        current   := rfl
      }

theorem step_at (b : Begins call l) (q : Quiet s₀ call.messageId l.path l.staging)
    (h : At sha256 call l s₀ p s) (hb : s₀.db.Beside {call.messageId} s.db)
    (hs : call.step sha256 capacity s p e = some (s', p')) :
    At sha256 call l s₀ p' s' ∧ s₀.db.Beside {call.messageId} s'.db := by
  have hne : l.path ≠ l.staging := (stagingPath_ne b.staging).symm
  have beside {i i' : ChangeIntent} {db : OutboxDb} (hm : i.messageId = call.messageId)
      (ha : s.db.Advances i db i') : s₀.db.Beside {call.messageId} db :=
    hb.advances ha hm
  unfold step at hs
  split at hs
  case h_1 =>
    cases h
    exact begin_at b q (Option.some.inj hs)
  case h_2 l' i =>
    obtain ⟨hl, o, htarget, hstaging⟩ := h
    subst hl
    split at hs
    case h_1 hc => cases hs; exact ⟨⟨rfl, o, htarget, hstaging.trans hc.symm⟩, hb⟩
    case h_2 =>
      rw [if_neg (not_not.mpr hstaging)] at hs
      cases hs
      exact ⟨⟨rfl, o.of_files, (Files.write_ne hne).trans htarget⟩, hb⟩
  case h_3 l' i n =>
    obtain ⟨hl, o, htarget⟩ := h
    subst hl
    obtain ⟨content, _, hs⟩ := Option.map_eq_some_iff.mp hs
    cases hs
    exact ⟨⟨rfl, o.of_files, (Files.write_ne hne).trans htarget⟩, hb⟩
  case h_4 l' i =>
    obtain ⟨hl, o, htarget⟩ := h
    subst hl
    obtain ⟨content, hc, hs⟩ := Option.map_eq_some_iff.mp hs
    cases hs
    exact ⟨⟨rfl, o.of_files, (Files.write_ne hne).trans htarget, Files.write_self.trans hc.symm⟩, hb⟩
  case h_5 l' i =>
    obtain ⟨hl, o, htarget, hstaging⟩ := h
    subst hl
    obtain ⟨db, ht, ha, o'⟩ := o.transition .committing (by decide)
    rw [OutboxDb.markCommitting, ht] at hs
    cases hs
    exact ⟨⟨rfl, o', htarget, hstaging⟩, beside o.describes.messageId ha⟩
  case h_6 l' i =>
    obtain ⟨hl, o, htarget, hstaging⟩ := h
    subst hl
    dsimp only at hs
    split at hs
    case h_1 =>
      cases hs
      exact ⟨⟨rfl, htarget, .inr ⟨o, hstaging⟩⟩, hb⟩
    case h_2 files hr =>
      cases hs
      refine ⟨⟨rfl, o.of_files, ?_⟩, hb⟩
      split at hr
      case isTrue hc =>
        obtain ⟨_, _, hr⟩ := Option.map_eq_some_iff.mp hr
        subst hr
        exact (Files.write_ne hne).trans (Files.unlink_self.trans hc.symm)
      case isFalse hc =>
        obtain ⟨new, hn, hr⟩ := Option.map_eq_some_iff.mp hr
        subst hr
        exact Files.write_self.trans (hn.symm.trans hstaging)
  case h_7 l' i =>
    obtain ⟨hl, o, htarget⟩ := h
    subst hl
    obtain ⟨db, ht, ha, o'⟩ := o.transition .ready (by decide)
    rw [OutboxDb.markReady, ht] at hs
    cases hs
    exact ⟨⟨rfl, o', htarget⟩, beside o.describes.messageId ha⟩
  case h_8 l' i =>
    obtain ⟨hl, o, htarget⟩ := h
    subst hl
    cases hs
    have hkeep : cleanupStaging s.files i l'.path = s.files l'.path :=
      cleanupStaging_ne fun he => hne (Option.some.inj (o.describes.staging.symm.trans he)).symm
    exact ⟨.inr <| .ready o.row o.describes o.state (hkeep.trans htarget), hb⟩
  case h_9 =>
    obtain ⟨hl, o, htarget, _⟩ := h
    cases hs
    exact ⟨⟨hl, htarget, .inl o⟩, hb⟩
  case h_10 =>
    obtain ⟨hl, o, htarget⟩ := h
    cases hs
    exact ⟨⟨hl, htarget, .inl o⟩, hb⟩
  case h_11 =>
    obtain ⟨hl, o, htarget, hstaging⟩ := h
    cases hs
    exact ⟨⟨hl, htarget, .inr ⟨o, hstaging⟩⟩, hb⟩
  case h_12 l' i =>
    obtain ⟨hl, htarget, ho⟩ := h
    subst hl
    cases ho with
    | inl o  =>
      rw [o.describes.messageId, o.row] at hs
      dsimp only at hs
      rw [if_pos o.state] at hs
      cases hs
      have hkeep : cleanupStaging s.files i l'.path = s.files l'.path :=
        cleanupStaging_ne fun he => hne (Option.some.inj (o.describes.staging.symm.trans he)).symm
      exact ⟨⟨rfl, o.of_files, hkeep.trans htarget, cleanupStaging_self o.describes.staging⟩, hb⟩
    | inr ho =>
      obtain ⟨o, hstaging⟩ := ho
      rw [o.describes.messageId, o.row] at hs
      dsimp only at hs
      rw [if_neg (by simp [o.state])] at hs
      cases hs
      exact ⟨.inr <| .committing o.row o.describes o.state htarget hstaging rfl, hb⟩
  case h_13 l' i =>
    obtain ⟨hl, o, htarget, hstaging⟩ := h
    subst hl
    cases hs
    have hrow (m : String) : (s.db.abandonReserved i).row? m = _ :=
      OutboxDb.abandonReserved_row? o.held
    rw [o.describes.messageId] at hrow
    refine ⟨.inl <| .absent ((hrow _).trans (if_pos rfl)) htarget hstaging, fun j hj => ?_⟩
    exact (hrow j).trans (if_neg hj) ▸ hb j hj
  case h_14 => cases hs

theorem At.phase (q : Quiet s₀ call.messageId l.path l.staging) (h : At sha256 call l s₀ p s) :
    Uncommitted sha256 call.messageId l (s₀.files l.path) (s₀.files l.path) s ∨
      Committed sha256 call.messageId l (s₀.files l.path) (s₀.files l.path) s := by
  cases p with
  | start      => cases h; exact .inl <| .absent q.message rfl q.absent
  | reserved   => have ⟨_, o, ht, _⟩ := h; exact .inl <| .reserved o.row o.describes o.state ht
  | writing    => have ⟨_, o, ht⟩ := h; exact .inl <| .reserved o.row o.describes o.state ht
  | staged     => have ⟨_, o, ht, _⟩ := h; exact .inl <| .reserved o.row o.describes o.state ht
  | abandoning => have ⟨_, o, ht, _⟩ := h; exact .inl <| .reserved o.row o.describes o.state ht
  | committing =>
    have ⟨_, o, ht, hs⟩ := h
    exact .inr <| .committing o.row o.describes o.state ht hs rfl
  | replaced   => have ⟨_, o, ht⟩ := h; exact .inr <| .replaced o.row o.describes o.state ht
  | ready      => have ⟨_, o, ht⟩ := h; exact .inr <| .ready o.row o.describes o.state ht
  | finished   => exact h
  | failing    =>
    have ⟨_, ht, ho⟩ := h
    cases ho with
    | inl o  => exact .inl <| .reserved o.row o.describes o.state ht
    | inr ho =>
      have ⟨o, hs⟩ := ho
      exact .inr <| .committing o.row o.describes o.state ht hs rfl

theorem run_at (b : Begins call l) (q : Quiet s₀ call.messageId l.path l.staging)
    {events : List Event} {t : Project × Position}
    (h : (call.system sha256 capacity).run (s₀, .start) events = some t) :
    At sha256 call l s₀ t.snd t.fst ∧ s₀.db.Beside {call.messageId} t.fst.db := by
  refine TransitionSystem.run_preserves (M := call.system sha256 capacity)
    (I := fun t => At sha256 call l s₀ t.snd t.fst ∧ s₀.db.Beside {call.messageId} t.fst.db) ?_ ?_ h
  · intro _ _ _ ⟨h, hb⟩ hs
    exact step_at b q h hb hs
  · exact ⟨rfl, .refl⟩

end CommitCall

-- Normalizing the path again, as the reservation does, leaves it alone: the outbox records the path
-- that is written.
def Stable (relativePath : String) : Prop :=
  ∀ path recorded, normalizePath relativePath = .ok path → normalizePath path = .ok recorded →
    recorded = path

section Quiet

variable {sha256 : Bytes → String} {m : String} {l : Locals} {source : Option Bytes}
  {s₀ s : Project}

theorem Quiet.lockable_of_beside (q : Quiet s₀ m l.path l.staging) (hb : s₀.db.Beside {m} s.db)
    (hm : ∀ i, s.db.row? m = some i → Describes sha256 m l source i)
    (hs : ∀ recorded, normalizePath l.path = .ok recorded → recorded = l.path) :
    s.db.Lockable := by
  intro row hrow
  by_cases he : row.messageId = m
  case neg =>
    have ⟨row₀, hm₀, _, hp, _⟩ := hb.descends hrow he l.path
    exact hp ▸ q.lockable row₀ hm₀
  case pos =>
    have d := hm row <| OutboxDb.row?_eq_some_iff.mpr ⟨hrow, he⟩
    exact ⟨_, (hs _ d.recorded).symm ▸ d.recorded⟩

theorem Quiet.separated_of_beside (q : Quiet s₀ m l.path l.staging) (hb : s₀.db.Beside {m} s.db)
    (hm : ∀ i, s.db.row? m = some i → Describes sha256 m l source i)
    (hs : ∀ recorded, normalizePath l.path = .ok recorded → recorded = l.path)
    (hne : l.staging ≠ l.path) : s.db.Separated := by
  have own {row : ChangeIntent} (hrow : row ∈ s.db) (he : row.messageId = m) :
      row.relativePath = l.path ∧ row.staging = some l.staging := by
    have d := hm row <| OutboxDb.row?_eq_some_iff.mpr ⟨hrow, he⟩
    exact ⟨hs _ d.recorded, d.staging⟩
  intro row hrow path hpath row' hrow'
  by_cases he : row.messageId = m
  case pos =>
    have ⟨_, hst⟩ := own hrow he
    cases Option.some.inj <| hst.symm.trans hpath
    by_cases he' : row'.messageId = m
    case pos =>
      have ⟨hp', _⟩ := own hrow' he'
      exact ⟨hp' ▸ hne.symm, fun _ => he'.trans he.symm⟩
    case neg =>
      have ⟨row₀, hm₀, _, hp₀, hs₀, _⟩ := hb.descends hrow' he' l.path
      have ⟨hf, hfs⟩ := q.fresh row₀ hm₀
      exact ⟨hp₀ ▸ hf, fun h => absurd (hs₀.trans h) hfs⟩
  case neg =>
    have ⟨row₀, hm₀, hid₀, hp₀, hs₀, _⟩ := hb.descends hrow he l.path
    have hpath₀ := hs₀.trans hpath
    by_cases he' : row'.messageId = m
    case pos =>
      have ⟨hp', hst'⟩ := own hrow' he'
      refine ⟨fun h => (q.others row₀ hm₀).left ?_, fun h => ?_⟩
      · rw [hpath₀, ← h, hp']
      · rw [hst'] at h
        exact absurd (hpath₀.trans h.symm) (q.fresh row₀ hm₀).right
    case neg =>
      have ⟨row₁, hm₁, hid₁, hp₁, hs₁, _⟩ := hb.descends hrow' he' l.path
      have ⟨hne', heq⟩ := q.separated row₀ hm₀ path hpath₀ row₁ hm₁
      exact ⟨hp₁ ▸ hne', fun h => hid₁ ▸ hid₀ ▸ heq (hs₁.trans h)⟩

theorem Quiet.isolated_of_beside (q : Quiet s₀ m l.path l.staging) (hb : s₀.db.Beside {m} s.db) :
    s.db.Isolated m l.path ∧ s.db.Isolated m l.staging := by
  refine ⟨fun _ => hb.untouched q.others, fun _ => hb.untouched fun row hm => ?_⟩
  have ⟨hp, hs⟩ := q.fresh row hm
  exact ⟨hs, fun h => absurd h hp⟩

end Quiet

-- A crash of `commit` at any point leaves the change all done or not done after recovery.
def CrashAtomic (sha256 : Bytes → String) (capacity : Nat) (relativePath : String) : Prop :=
  ∀ (call : CommitCall) (l : Locals) (s : Project), call.relativePath = relativePath →
    call.Begins l → Quiet s call.messageId l.path l.staging →
    CollisionFree sha256 (s.files l.path) l.content →
    ∀ events t, (call.system sha256 capacity).run (s, .start) events = some t →
      ∃ s', recover sha256 t.fst = .ok s' ∧
        (RolledBack call.messageId l (s.files l.path) s' ∨ Done call.messageId l s') ∧
        s'.files l.staging = none ∧ recover sha256 s' = .ok s'

section CrashAtomic

variable {sha256 : Bytes → String} {capacity : Nat} {relativePath : String}

theorem Stable.crashAtomic (hs : Stable relativePath) :
    CrashAtomic sha256 capacity relativePath := by
  intro call l s hp b q hc events t h
  have hstable (recorded : String) (hr : normalizePath l.path = .ok recorded) : recorded = l.path :=
    hs l.path recorded (hp ▸ b.path) hr
  have hne := stagingPath_ne b.staging
  have ⟨hat, hb⟩ := CommitCall.run_at b q h
  have phase := hat.phase q
  have describes (i : ChangeIntent) (hr : t.fst.db.row? call.messageId = some i) :
      Describes sha256 call.messageId l (s.files l.path) i := by
    cases phase with
    | inl phase => exact phase.describes hr
    | inr phase => exact phase.describes hr
  have ⟨hi, hi'⟩ := q.isolated_of_beside hb
  have lockable := q.lockable_of_beside hb describes hstable
  have separated := q.separated_of_beside hb describes hstable hne
  have ⟨s', hrec⟩ : ∃ s', recover sha256 t.fst = .ok s' := recover_total lockable
  refine ⟨s', hrec, ?_⟩
  cases phase with
  | inl phase =>
    have ⟨hback, hst⟩ := phase.recover hrec hne hstable hi hi'
    exact ⟨.inl hback, hst, recover_idempotent separated lockable hrec⟩
  | inr phase =>
    have ⟨hdone, hst⟩ := phase.recover hrec hne hstable hi hi' hc
    exact ⟨.inr hdone, hst, recover_idempotent separated lockable hrec⟩

theorem Quiet.empty {m path staging : String} : Quiet ⟨fun _ => none, .empty⟩ m path staging where
  message   := rfl
  absent    := rfl
  others    := fun _ h => absurd h Table.not_mem_empty
  fresh     := fun _ h => absurd h Table.not_mem_empty
  separated := fun _ h => absurd h Table.not_mem_empty
  lockable  := fun _ h => absurd h Table.not_mem_empty

-- The run that adds a file to an empty project and crashes before the rename
theorem adding {path recorded staging : String} {new : Bytes} (hc : 0 < capacity)
    (call : CommitCall) (b : call.Begins ⟨path, staging, some new⟩)
    (hr : normalizePath path = .ok recorded) :
    ∃ i db, (call.system sha256 capacity).run (⟨fun _ => none, .empty⟩, .start)
      [.proceed, .proceed, .proceed, .proceed] =
        some (⟨(Files.write (fun _ => none) staging []).write staging new, db⟩,
          .committing ⟨path, staging, some new⟩ i) := by
  obtain ⟨db₁, i, hres⟩ : ∃ db i, OutboxDb.reserve capacity .empty path none call.changeType
      (fileDigest sha256 none) (fileDigest sha256 (some new)) (some staging) call.messageId call.now =
        .ok (db, .reserved i) := OutboxDb.reserve_empty hc hr
  let files₁ : Files := fun _ => none
  let files₂ := files₁.write staging []
  let files₃ := files₂.write staging new
  let l : Locals := ⟨path, staging, some new⟩
  have h₁ : call.step sha256 capacity ⟨files₁, .empty⟩ .start .proceed =
      some (⟨files₁, db₁⟩, .reserved l i) := by
    obtain ⟨hp, hcontent, hst⟩ := b
    simp [CommitCall.step, CommitCall.begin, hp, hcontent, hst, hres, l, files₁]
  have h₂ : call.step sha256 capacity ⟨files₁, db₁⟩ (.reserved l i) .proceed =
      some (⟨files₂, db₁⟩, .writing l i) := by
    simp [CommitCall.step, l, files₁, files₂]
  have h₃ : call.step sha256 capacity ⟨files₂, db₁⟩ (.writing l i) .proceed =
      some (⟨files₃, db₁⟩, .staged l i) := rfl
  have hrun : (call.system sha256 capacity).run (⟨files₁, .empty⟩, .start)
      [.proceed, .proceed, .proceed] = some (⟨files₃, db₁⟩, .staged l i) := by
    simp [TransitionSystem.run, CommitCall.system, h₁, h₂, h₃]
  obtain ⟨⟨_, o, _⟩, _⟩ := CommitCall.run_at b .empty hrun
  obtain ⟨db, ht, _⟩ := o.transition .committing (by decide)
  have h₄ : (call.system sha256 capacity).step (⟨files₃, db₁⟩, .staged l i) .proceed =
      some (⟨files₃, db⟩, .committing l { i with state := .committing }) := by
    simp only [CommitCall.system, CommitCall.step, OutboxDb.markCommitting, ht]
  have hrun' := TransitionSystem.run_concat_eq_some_iff.mpr ⟨_, hrun, h₄⟩
  exact ⟨_, db, hrun'⟩

theorem CrashAtomic.stable (hc : 0 < capacity) (h : CrashAtomic sha256 capacity relativePath) :
    Stable relativePath := by
  intro path recorded hp hr
  by_contra hne
  have hroot : path ≠ "." := by
    rintro rfl
    have he : normalizePath "." = .ok "." := by decide
    exact hne <| Except.ok.inj (hr.symm.trans he)
  -- With this token the name of the staging file is longer than the recorded path.
  let call : CommitCall :=
    { relativePath, changeType := .add, newText := some "", token := recorded, messageId := "m", now := "" }
  obtain ⟨staging, hst⟩ : ∃ staging, stagingPath path (stagingSuffix .add recorded) = .ok staging :=
    ⟨_, if_neg hroot⟩
  have hlong : staging ≠ recorded := by
    rintro rfl
    have := stagingPath_length hst
    simp only [stagingSuffix, reduceCtorEq, if_false, String.toList_append, List.length_append] at this
    omega
  have b : call.Begins ⟨path, staging, some (encode "")⟩ := ⟨hp, rfl, hst⟩
  obtain ⟨i, db, hrun⟩ : ∃ i db, (call.system sha256 capacity).run _ _ = some (⟨_, db⟩, .committing _ i) :=
    adding hc call b hr
  obtain ⟨⟨_, o, _⟩, hb⟩ := CommitCall.run_at b .empty hrun
  have hrecorded : i.relativePath = recorded := Except.ok.inj <| o.describes.recorded.symm.trans hr
  -- The only intent works on `recorded` and on the staging file.
  have only {row : ChangeIntent} (hm : row ∈ db) : row = i := by
    by_cases he : row.messageId = "m"
    case pos => exact Option.some.inj <| (OutboxDb.row?_eq_some_iff.mpr ⟨hm, he⟩).symm.trans o.row
    case neg =>
      obtain ⟨_, h, _⟩ := hb.descends hm he path
      cases h
  have isolated (x : String) : db.Isolated "m" x := fun row hm he =>
    absurd (only hm ▸ o.describes.messageId) he
  obtain ⟨s', hrec, ho, _, _⟩ := h call _ _ rfl b .empty .none_left _ _ hrun
  have hfiles : (Files.write (Files.write (fun _ => none) staging []) staging (encode "")) recorded =
      none := by
    rw [Files.write_ne hlong.symm, Files.write_ne hlong.symm]
  have hstate := o.state
  have hne' : staging ≠ i.relativePath := by rw [hrecorded]; exact hlong
  obtain ⟨houtcome, _⟩ := recover_outcome hrec o.row o.describes.current o.describes.staging hne'
    (by simp [hstate]) (by simp [hstate]) (isolated _) (isolated _)
  have hland : landing sha256 i none (some (encode "")) = (some (encode ""), true) :=
    landing_of_before o.describes bytesDigest_ne_missing.symm rfl
  simp only [hrecorded, hfiles, Files.write_self, outcome, o.state, hland, Prod.mk.injEq] at houtcome
  have hkeep : s'.files path = none := by
    have untouched : i.Untouched path := by
      refine ⟨fun he => stagingPath_ne hst ?_, fun he => absurd (he.symm.trans hrecorded).symm hne⟩
      exact Option.some.inj <| o.describes.staging.symm.trans he
    have hn : db.row? "" = none := by
      refine Option.eq_none_iff_forall_ne_some.mpr fun row hr => ?_
      obtain ⟨hm, he⟩ := OutboxDb.row?_eq_some_iff.mp hr
      have he : "m" = "" := o.describes.messageId.symm.trans (only hm ▸ he)
      simp at he
    obtain ⟨_, hf⟩ := recover_absent hrec hn fun row hm _ => only hm ▸ untouched
    have hne := (stagingPath_ne hst).symm
    exact hf.trans <| (Files.write_ne hne).trans (Files.write_ne hne)
  cases ho with
  | inl hrolled => cases hrolled.row.symm.trans houtcome.right
  | inr hdone   => cases hdone.target.symm.trans hkeep

end CrashAtomic

end Outbox
