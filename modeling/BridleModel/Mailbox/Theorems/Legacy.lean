import BridleModel.Mailbox.System
import BridleModel.Mailbox.Theorems.Guard
import BridleModel.Mailbox.Theorems.Migration

open Python

namespace Mail

section Row

variable {V : Type} {P : Parsers V} {projectId text uri : String} {row : LegacyRow}
  {migration : MigrationRow} {json : String → Option String} {depth : V → Nat}

theorem decodeComponent_ne_empty {value decoded : String} (h : decodeComponent value = some decoded) :
    decoded ≠ "" := by
  unfold decodeComponent at h
  split at h
  case h_1 => cases h
  split at h
  case h_1 => cases h
  split at h
  case isTrue hd => exact Option.some.inj h ▸ hd.left
  case isFalse   => cases h

theorem AgentAddress.nonempty_of_parse {a : AgentAddress} (h : parse text = .ok a) : a.Nonempty := by
  unfold parse at h
  split at h
  case isTrue => cases h
  split at h
  case h_2 => cases h
  split at h
  case h_2 => cases h
  case h_1 hp ha =>
    dsimp only at h
    split at h
    case isFalse   => cases h
    case isTrue hg =>
      cases h
      exact ⟨decodeComponent_ne_empty hp, decodeComponent_ne_empty ha, hg.right.left⟩

-- The generation of the address fits into an INTEGER, if the text is an address already.
def Representable (text : String) : Prop :=
  ∀ a, AgentAddress.parse text = .ok a → a.generation < 2 ^ 63

theorem addressGuard_canonicalLegacyAddress (h : canonicalLegacyAddress projectId text = .ok uri) :
    addressGuard uri ↔ Representable text := by
  unfold canonicalLegacyAddress at h
  split at h
  case h_1 a ha =>
    cases h
    rw [addressGuard_toUri (AgentAddress.nonempty_of_parse ha)]
    constructor
    · intro hg b hb
      rw [ha] at hb
      exact Except.ok.inj hb ▸ hg
    · exact fun hr => hr a ha
  case h_2 e he =>
    split at h
    case isFalse => cases h
    case isTrue  =>
      dsimp only at h
      split at h
      case isFalse   => cases h
      case isTrue hc =>
        cases h
        rw [addressGuard_toUri ⟨hc.right.right, hc.left, Nat.le_refl 1⟩]
        refine iff_of_true (show 1 < 2 ^ 63 by decide) fun a ha => ?_
        rw [he] at ha
        cases ha

theorem strictUtcGuard_canonicalTimestamp (h : canonicalTimestamp P text = .ok uri) : strictUtcGuard uri := by
  unfold canonicalTimestamp at h
  split at h
  case h_1 => cases h
  case h_2 => exact Except.ok.inj h ▸ strictUtcGuard_utcText

theorem strictUtcGuard_canonicalRequired {value : Option String}
    (h : canonicalRequired P value = .ok uri) : strictUtcGuard uri := by
  cases value with
  | none      => cases h
  | some text => exact strictUtcGuard_canonicalTimestamp h

theorem canonicalOptional_some {value : Option String} {out : Option String} {text : String}
    (hv : value = some text) (h : canonicalOptional P value = .ok out) : out.any strictUtcGuard := by
  subst hv
  have ⟨_, ht, h⟩ := Except.map_eq_ok_iff.mp h
  subst h
  exact strictUtcGuard_canonicalTimestamp ht

theorem canonicalOptional_none {value : Option String} {out : Option String} (hv : value = none)
    (h : canonicalOptional P value = .ok out) : out = none := by
  subst hv
  cases h
  rfl

-- The states that the preflight lets through, with the columns that go with them
inductive LegacyState (row : LegacyRow) : Status → Prop
  | pending (retry : row.nextRetryAt = none) (owner : row.leaseOwner = none) (token : row.leaseToken = none)
      (expires : row.leaseExpiresAt = none) : LegacyState row .pending
  | delivered (retry : row.nextRetryAt = none) (owner : row.leaseOwner = none) (token : row.leaseToken = none)
      (expires : row.leaseExpiresAt = none) : LegacyState row .delivered
  | retryWait (retry : row.nextRetryAt.isSome) (owner : row.leaseOwner = none) (token : row.leaseToken = none)
      (expires : row.leaseExpiresAt = none) : LegacyState row .retryWait
  | leased (retry : row.nextRetryAt = none) (owner : row.leaseOwner.isSome) (token : row.leaseToken.isSome)
      (expires : row.leaseExpiresAt.isSome) : LegacyState row .leased

theorem legacyState_of_ok (h : validateLegacyState row = .ok text) :
    ∃ status, Status.ofText text = some status ∧ LegacyState row status := by
  unfold validateLegacyState at h
  by_cases hp : row.status = "pending"
  case pos =>
    simp only [hp, if_true] at h
    split at h
    case isFalse   => cases h
    case isTrue hl =>
      simp only [List.all_cons, List.all_nil, Bool.and_true, Bool.and_eq_true, Option.isNone_iff_eq_none] at hl
      have ⟨ho, ht, he⟩ := hl
      cases hr : row.nextRetryAt with
      | none   =>
        rw [hr] at h
        exact ⟨.pending, Except.ok.inj h ▸ rfl, .pending hr ho ht he⟩
      | some _ =>
        rw [hr] at h
        exact ⟨.retryWait, Except.ok.inj h ▸ rfl, .retryWait (by simp [hr]) ho ht he⟩
  case neg =>
    simp only [hp, if_false] at h
    by_cases hd : row.status = "delivered"
    case pos =>
      simp only [hd, if_true] at h
      split at h
      case isFalse   => cases h
      case isTrue hl =>
        simp only [List.all_cons, List.all_nil, Bool.and_true, Bool.and_eq_true,
          Option.isNone_iff_eq_none] at hl
        have ⟨hr, ho, ht, he⟩ := hl
        exact ⟨.delivered, Except.ok.inj h ▸ rfl, .delivered hr ho ht he⟩
    case neg =>
      simp only [hd, if_false] at h
      by_cases hw : row.status = "retry_wait"
      case pos =>
        simp only [hw, if_true] at h
        split at h
        case isFalse   => cases h
        case isTrue hl =>
          simp only [List.all_cons, List.all_nil, Bool.and_true, Bool.and_eq_true,
            Option.isNone_iff_eq_none] at hl
          have ⟨hr, ho, ht, he⟩ := hl
          exact ⟨.retryWait, Except.ok.inj h ▸ rfl, .retryWait hr ho ht he⟩
      case neg =>
        simp only [hw, if_false] at h
        by_cases hs : row.status = "leased"
        case pos =>
          simp only [hs, if_true] at h
          split at h
          case isFalse   => cases h
          case isTrue hl =>
            simp only [List.all_cons, List.all_nil, Bool.and_true, Bool.and_eq_true,
              Option.isNone_iff_eq_none] at hl
            have ⟨hr, ho, ht, he⟩ := hl
            exact ⟨.leased, Except.ok.inj h ▸ rfl, .leased hr ho ht he⟩
        case neg =>
          simp [hs] at h

-- The row that the guard sees after the UPDATE of the migration
def MigrationRow.mail (migration : MigrationRow) (row : LegacyRow) (status : Status) (payloadJson : String) :
    MailRow where
  messageId      := row.messageId
  sourceAddress  := migration.sourceAddress
  targetAddress  := migration.targetAddress
  messageType    := row.messageType
  payloadJson    := payloadJson
  sequenceNo     := row.sequenceNo.toNat
  status         := status
  attempt        := row.attempt.toNat
  nextRetryAt    := migration.nextRetryAt
  leaseOwner     := row.leaseOwner
  leaseToken     := row.leaseToken
  leaseExpiresAt := migration.leaseExpiresAt
  createdAt      := migration.createdAt
  updatedAt      := migration.updatedAt

variable {status : Status} {payloadJson : String}

theorem mailRow?_apply (h : Preflighted P projectId row migration)
    (hs : Status.ofText migration.status = some status) :
    (migration.apply payloadJson row).mailRow? = some (migration.mail row status payloadJson) := by
  have hn := h.sequenceNo
  have ha := h.attempt
  simp [LegacyRow.mailRow?, MigrationRow.apply, MigrationRow.mail, hs, ha, show 0 ≤ row.sequenceNo by omega]

theorem stateGuard_mail (h : Preflighted P projectId row migration) (hs : LegacyState row status) :
    stateGuard (migration.mail row status payloadJson) := by
  have some_of {value : Option String} (hv : value.isSome) : ∃ text, value = some text :=
    Option.isSome_iff_exists.mp hv
  cases hs with
  | pending hr ho ht he | delivered hr ho ht he =>
    simp [stateGuard, MigrationRow.mail, ho, ht, canonicalOptional_none hr h.nextRetryAt,
      canonicalOptional_none he h.leaseExpiresAt]
  | retryWait hr ho ht he =>
    have ⟨_, hv⟩ := some_of hr
    simp [stateGuard, MigrationRow.mail, ho, ht, canonicalOptional_none he h.leaseExpiresAt]
    exact canonicalOptional_some hv h.nextRetryAt
  | leased hr ho ht he =>
    have ⟨_, hv⟩ := some_of he
    simp [stateGuard, MigrationRow.mail, ho, ht, canonicalOptional_none hr h.nextRetryAt]
    exact canonicalOptional_some hv h.leaseExpiresAt

-- What the guard rejects of the rows that the preflight accepts
structure Convertible (P : Parsers V) (depth : V → Nat) (row : LegacyRow) : Prop where
  source  : Representable row.sourceAddress
  target  : Representable row.targetAddress
  payload : ∀ v, P.loads row.payloadJson = some v → depth v ≤ 1000 ∧ P.dumps v ≠ some .surrogates

theorem canonicalJson_ok {out : PythonText} (h : canonicalJson P text = .ok out) :
    ∃ v, P.loads text = some v ∧ P.dumps v = some out := by
  unfold canonicalJson at h
  split at h
  case h_1         => cases h
  case h_2 out' hb =>
    cases h
    exact Option.bind_eq_some_iff.mp hb

theorem updateGuard_mail (hjson : ∀ v out, P.dumps v = some (.utf8 out) → (json out = some out ↔ depth v ≤ 1000))
    (h : Preflighted P projectId row migration) (hs : LegacyState row status)
    (hp : migration.payloadJson = .utf8 payloadJson) :
    updateGuard json (migration.mail row status payloadJson) ↔ Convertible P depth row := by
  have ⟨v, hv, hd⟩ := canonicalJson_ok h.payloadJson
  rw [hp] at hd
  have hn : 0 < row.sequenceNo.toNat := by
    have := h.sequenceNo
    omega
  have hg := @stateGuard_mail _ _ _ _ _ _ payloadJson h hs
  rw [updateGuard, decide_eq_true_eq]
  simp only [MigrationRow.mail] at hg ⊢
  rw [addressGuard_canonicalLegacyAddress h.sourceAddress, addressGuard_canonicalLegacyAddress h.targetAddress,
    hjson v _ hd]
  constructor
  · intro ⟨_, hs, ht, _, hj, _⟩
    refine ⟨hs, ht, fun w hw => ?_⟩
    rw [hv] at hw
    cases hw
    exact ⟨hj, by simp [hd]⟩
  · intro ⟨hs, ht, hj⟩
    exact ⟨h.messageId, hs, ht, h.messageType, (hj v hv).left, hn,
      strictUtcGuard_canonicalRequired h.createdAt, strictUtcGuard_canonicalRequired h.updatedAt, hg⟩

end Row

section Later

variable {json : String → Option String} {row : MailRow} {now expiresAt : DateTime}
  {consumerId token : String} {boxes : Nat → PersistentMailbox} {s s' : Mailboxes} {a : Action}
  {res : MailboxResult} {k : Nat} {m : String} {target : AgentAddress}

theorem updateGuard_claimed (h : updateGuard json row) :
    updateGuard json (row.claimed consumerId token expiresAt now) := by
  simp only [updateGuard, decide_eq_true_eq] at h ⊢
  have ⟨hm, hs, ht, hy, hj, hn, hc, _⟩ := h
  refine ⟨hm, hs, ht, hy, hj, hn, hc, strictUtcGuard_utcText, ?_⟩
  simpa [stateGuard, MailRow.claimed] using strictUtcGuard_utcText

theorem updateGuard_renewed (hl : row.status = .leased) (h : updateGuard json row) :
    updateGuard json (row.renewed expiresAt now) := by
  simp only [updateGuard, decide_eq_true_eq] at h ⊢
  have ⟨hm, hs, ht, hy, hj, hn, hc, _, hg⟩ := h
  refine ⟨hm, hs, ht, hy, hj, hn, hc, strictUtcGuard_utcText, ?_⟩
  simp only [stateGuard, hl, decide_eq_true_eq] at hg
  simpa [stateGuard, MailRow.renewed, hl, hg] using strictUtcGuard_utcText

theorem updateGuard_unleased {status : Status} {retryAt : Option String} (h : updateGuard json row)
    (hg : stateGuard (row.unleased status retryAt now)) : updateGuard json (row.unleased status retryAt now) := by
  simp only [updateGuard, decide_eq_true_eq] at h ⊢
  have ⟨hm, hs, ht, hy, hj, hn, hc, _⟩ := h
  exact ⟨hm, hs, ht, hy, hj, hn, hc, strictUtcGuard_utcText, hg⟩

theorem stateGuard_retry {retryAt : DateTime} :
    stateGuard (row.unleased .retryWait (some retryAt.utcText) now) := by
  simpa [stateGuard, MailRow.unleased] using strictUtcGuard_utcText

-- The effect of `nack`, which writes the text of an instant into `next_retry_at`
theorem nack_effect_utcText (h : s.perform boxes (.nack k m token target now) = .ok (s', res)) :
    s' = s ∨ ∃ retryAt : DateTime, s' = {
      s with
      db := s.db.update m (·.unleased .retryWait (some retryAt.utcText) now) fun _ => MailRow.keys_unleased
    } := by
  have ⟨⟨db, _⟩, ho, hs⟩ := Except.map_eq_ok_iff.mp h
  cases hs
  unfold PersistentMailbox.nack at ho
  split at ho
  case isTrue => cases ho
  split at ho
  case h_1 => cases ho
  case h_2 => cases ho; exact .inl rfl
  case h_3 =>
    split at ho
    case h_1         => cases ho
    case h_2 retryAt _ => cases ho; exact .inr ⟨retryAt, rfl⟩

-- The guard accepts the row of the message `m`.
def Accepted (json : String → Option String) (s : Mailboxes) (m : String) : Prop :=
  ∃ row, s.db.row? m = some row ∧ updateGuard json row

theorem Accepted.update {f : MailRow → MailRow} {hf : ∀ row, (f row).keys = row.keys} {m' : String}
    (h : Accepted json s m) (hu : ∀ row, s.db.row? m' = some row → updateGuard json row → updateGuard json (f row)) :
    Accepted json { s with db := s.db.update m' f hf } m := by
  have ⟨row, hr, hg⟩ := h
  by_cases hm : m = m'
  case neg => exact ⟨row, by simp [MailDb.row?_update, hm, hr], hg⟩
  case pos => exact ⟨f row, by simp [MailDb.row?_update, ← hm, hr], hu row (hm ▸ hr) hg⟩

theorem Accepted.perform (h : Accepted json s m) (hp : s.perform boxes a = .ok (s', res)) :
    Accepted json s' m := by
  have ⟨row, hr, hg⟩ := h
  have e := Mailboxes.perform_effect hp
  cases e with
  | none              => exact h
  | enqueue hf hi     =>
    refine ⟨row, ?_, hg⟩
    rw [MailDb.row?_insert hi, if_neg, hr]
    intro hm
    rw [hm] at hr
    exact absurd (hr.symm.trans hf) (by simp)
  | claim             => exact h.update fun _ _ hg => updateGuard_claimed hg
  | renew hr hl       =>
    refine h.update fun _ hr' hg => updateGuard_renewed ?_ hg
    exact Option.some.inj (hr.symm.trans hr') ▸ hl.leased
  | ack               => exact h.update fun _ _ hg => updateGuard_unleased hg rfl
  | nack hr hl hs     =>
    cases nack_effect_utcText hp with
    | inl hs => rwa [hs]
    | inr hs =>
      have ⟨_, hs⟩ := hs
      rw [hs]
      exact h.update fun _ _ hg => updateGuard_unleased hg stateGuard_retry
  | close             =>
    unfold Accepted
    rw [MailDb.row?_release, hr]
    refine ⟨_, rfl, ?_⟩
    dsimp only
    split
    case isTrue  => exact updateGuard_unleased hg rfl
    case isFalse => exact hg

theorem Accepted.after (h : Accepted json s m) : Accepted json (s.after boxes a) m := by
  cases hp : s.perform boxes a with
  | error e => rwa [Mailboxes.after_of_error hp]
  | ok out  => exact Mailboxes.after_of_ok hp ▸ h.perform hp

theorem Accepted.afterAll {acts : List Action} (h : Accepted json s m) :
    Accepted json (s.afterAll boxes acts) m :=
  (system boxes).run_preserves (I := (Accepted json · m))
    (fun hi hs => Option.some.inj hs ▸ Accepted.after hi) h system_run

end Later
section Migration

variable {V : Type} {P : Parsers V} {projectId : String} {row row' : LegacyRow} {migration : MigrationRow}
  {rows : List LegacyRow} {migrations : List MigrationRow} {file : MailFile}
  {json : String → Option String} {depth : V → Nat}

-- A row of version 2 that keeps what the legacy row says and that no operation of a mailbox is refused on
structure Usable (P : Parsers V) (json : String → Option String) (row row' : LegacyRow) : Prop where
  id          : row'.id = row.id
  messageId   : row'.messageId = row.messageId
  sequenceNo  : row'.sequenceNo = row.sequenceNo
  attempt     : row'.attempt = row.attempt
  messageType : row'.messageType = row.messageType
  payload     : ∃ v, P.loads row.payloadJson = some v ∧ P.loads row'.payloadJson = some v
  status      : validateLegacyState row = .ok row'.status
  current     : row'.guard json
  later       : ∀ mail, row'.mailRow? = some mail → ∀ boxes s acts, s.db.row? mail.messageId = some mail →
    Accepted json (Mailboxes.afterAll boxes s acts) mail.messageId

theorem guard_rewritten (hjson : ∀ v out, P.dumps v = some (.utf8 out) → (json out = some out ↔ depth v ≤ 1000))
    (h : Preflighted P projectId row migration) (hp : migration.payloadJson ≠ .surrogates) :
    (migration.rewritten row).guard json ↔ Convertible P depth row := by
  have ⟨status, hs, hl⟩ := legacyState_of_ok h.status
  unfold MigrationRow.rewritten
  split
  case h_1 text ht => simp [LegacyRow.guard, mailRow?_apply h hs, updateGuard_mail hjson h hl ht]
  case h_2 ht      => exact absurd ht hp

theorem Convertible.payload_ne (hc : Convertible P depth row) (h : Preflighted P projectId row migration) :
    migration.payloadJson ≠ .surrogates := by
  have ⟨v, hv, hd⟩ := canonicalJson_ok h.payloadJson
  exact fun hs => (hc.payload v hv).right (hs ▸ hd)

theorem usable_rewritten (hjson : ∀ v out, P.dumps v = some (.utf8 out) → (json out = some out ↔ depth v ≤ 1000))
    (hround : ∀ text v out, P.loads text = some v → P.dumps v = some (.utf8 out) → P.loads out = some v)
    (h : Preflighted P projectId row migration) (hc : Convertible P depth row) :
    Usable P json row (migration.rewritten row) := by
  have hg := (guard_rewritten hjson h (hc.payload_ne h)).mpr hc
  have ⟨v, hv, hd⟩ := canonicalJson_ok h.payloadJson
  unfold MigrationRow.rewritten at hg ⊢
  split
  case h_2 ht      => exact absurd ht (hc.payload_ne h)
  case h_1 text ht =>
    rw [ht] at hg hd
    exact {
      id          := rfl
      messageId   := rfl
      sequenceNo  := rfl
      attempt     := rfl
      messageType := rfl
      payload     := ⟨v, hv, hround _ _ _ hv hd⟩
      status      := h.status
      current     := hg
      later       := fun mail hm boxes s acts hs => by
        have hu : updateGuard json mail := by simpa [LegacyRow.guard, hm] using hg
        exact Accepted.afterAll ⟨mail, hs, hu⟩
    }

theorem admitted_of_convertible
    (hjson : ∀ v out, P.dumps v = some (.utf8 out) → (json out = some out ↔ depth v ≤ 1000))
    (hp : List.Forall₂ (Preflighted P projectId) rows migrations)
    (hc : ∀ row ∈ rows, Convertible P depth row) :
    List.Forall₂ (Admits (LegacyRow.guard json) file) rows migrations := by
  induction hp with
  | nil           => exact .nil
  | cons h _ hi   =>
    have ⟨hh, ht⟩ := List.forall_mem_cons.mp hc
    have hn := hh.payload_ne h
    exact .cons ⟨hn, fun _ => (guard_rewritten hjson h hn).mpr hh⟩ (hi ht)

theorem usable_zipWith
    (hjson : ∀ v out, P.dumps v = some (.utf8 out) → (json out = some out ↔ depth v ≤ 1000))
    (hround : ∀ text v out, P.loads text = some v → P.dumps v = some (.utf8 out) → P.loads out = some v)
    (hp : List.Forall₂ (Preflighted P projectId) rows migrations) 
    (ha : List.Forall₂ (Admits (LegacyRow.guard json) file) rows migrations) :
    List.Forall₂ (Usable P json) rows (List.zipWith MigrationRow.rewritten migrations rows) ↔
      ∀ row ∈ rows, Convertible P depth row := by
  induction hp with
  | nil         => simp
  | cons h _ hi =>
    have ⟨hh, ht⟩ := List.forall₂_cons.mp ha
    rw [List.zipWith_cons_cons, List.forall₂_cons, List.forall_mem_cons, hi ht]
    refine and_congr_left fun _ => ⟨fun hu => ?_, usable_rewritten hjson hround h⟩
    exact (guard_rewritten hjson h hh.payload).mp hu.current

theorem legacy_migration
    (hjson : ∀ v out, P.dumps v = some (.utf8 out) → (json out = some out ↔ depth v ≤ 1000))
    (hround : ∀ text v out, P.loads text = some v → P.dumps v = some (.utf8 out) → P.loads out = some v)
    (h : preflightMailDatabase P projectId file = .ok (some migrations)) :
    ((file.migrated (LegacyRow.guard json) migrations (migrations.length + 9)).userVersion = 2 ∧
      List.Forall₂ (Usable P json) file.rows
        (file.migrated (LegacyRow.guard json) migrations (migrations.length + 9)).rows) ↔
      ∀ row ∈ file.rows, Convertible P depth row := by
  have ⟨hv, hr⟩ := preflightMailDatabase_ok h
  have ⟨hp, _, _⟩ := preflightRows_ok hr
  by_cases ha : Admitted (LegacyRow.guard json) migrations file
  case pos =>
    have hm := migrated_of_admitted hr ha (Nat.le_succ _)
    rw [hm.rows, usable_zipWith hjson hround hp ha]
    exact and_iff_right hm.userVersion
  case neg =>
    refine iff_of_false (fun ⟨h₂, _⟩ => ?_) fun hc => ha (admitted_of_convertible hjson hp hc)
    rw [migrated_of_none (body_eq_none hp ha), hv] at h₂
    cases h₂

theorem isoParsers_round (text : String) (v : Json) (out : String) (hv : isoParsers.loads text = some v)
    (hd : isoParsers.dumps v = some (.utf8 out)) : isoParsers.loads out = some v := by
  have ⟨w, hw, hc⟩ := Option.map_eq_some_iff.mp hv
  cases hd
  subst hc
  change (Json.loads (Json.dumps (Json.canonical w))).map Json.canonical = _
  rw [Json.dumps_canonical, Json.loads_dumps (Json.distinct_of_loads hw), Option.map_some,
    Json.canonical_canonical]

theorem legacy_migration_legacyFile :
    List.Forall₂ (Usable isoParsers some) legacyFile.rows
      (legacyFile.migrated (LegacyRow.guard some) [legacyMigration] 10).rows := by
  have hs : AgentAddress.parse "agent://parent" = .error .invalidAddress := by decide +kernel
  have ht : AgentAddress.parse "agent://p/child/1" = .ok ⟨"p", "child", 1⟩ := by decide +kernel
  have hc : ∀ row ∈ legacyFile.rows, Convertible isoParsers (fun _ => 0) row := by
    intro row hm
    have hr := List.mem_singleton.mp hm
    subst hr
    refine ⟨fun a ha => ?_, fun a ha => ?_, fun v _ => ⟨Nat.zero_le _, by simp [isoParsers]⟩⟩
    · cases hs.symm.trans ha
    · cases ht.symm.trans ha
      decide
  exact ((legacy_migration (by simp) isoParsers_round preflight_legacyFile).mpr hc).right

def distantRow : LegacyRow where
  id             := 1
  messageId      := "m"
  sourceAddress  := "agent://p/parent/9223372036854775808"
  targetAddress  := "agent://p/child/1"
  messageType    := "TaskAssigned"
  payloadJson    := "\x7b\x7d"
  sequenceNo     := 1
  status         := "pending"
  attempt        := 0
  nextRetryAt    := none
  leaseOwner     := none
  leaseToken     := none
  leaseExpiresAt := none
  createdAt      := some "2026-07-14T01:02:03.000000Z"
  updatedAt      := some "2026-07-14T01:02:03.000000Z"

def distantFile : MailFile :=
  { legacyFile with rows := [distantRow], ordered := List.pairwise_singleton .. }

def distantMigration : MigrationRow :=
  { legacyMigration with sourceAddress := "agent://p/parent/9223372036854775808" }

-- The generation 2 ^ 63 passes the preflight and is no INTEGER of SQLite.
theorem legacy_migration_not :
    preflightMailDatabase isoParsers "p" distantFile = .ok (some [distantMigration]) ∧
      ¬List.Forall₂ (Usable isoParsers some) distantFile.rows
        (distantFile.migrated (LegacyRow.guard some) [distantMigration] 10).rows := by
  refine ⟨by decide +kernel, fun h => ?_⟩
  have hr : (distantFile.migrated (LegacyRow.guard some) [distantMigration] 10).rows = [distantRow] := by
    decide +kernel
  rw [hr] at h
  have ⟨hu, _⟩ := List.forall₂_cons.mp h
  exact absurd hu.current (by decide +kernel)

end Migration
end Mail
