import BridleModel.Mailbox.Theorems.Message

open Python

namespace Mail

-- How SQLite ends the transaction of a call: a busy database or a failing statement rolls it back.
inductive Verdict
  | commits
  | busy
  | aborts
deriving DecidableEq

structure Attempt where
  action  : Action
  verdict : Verdict

inductive Reply
  | result (res : MailboxResult)
  | busy -- "mailbox_busy"

namespace Mailboxes

variable (boxes : Nat → PersistentMailbox)

-- Whether the call gets as far as its transaction
def opens (s : Mailboxes) : Action → Bool
  | .enqueue k envelope _  =>
    ¬s.closed k ∧ (boxes k).validTarget envelope.source ∧ (boxes k).validTarget envelope.target
  | .claim k target now _  =>
    ¬s.closed k ∧ (boxes k).validTarget target ∧ (now.add (timedelta (boxes k).leaseSeconds)).isSome
  | .renew k _ _ target now =>
    (boxes k).validTarget target ∧ (now.add (timedelta (boxes k).leaseSeconds)).isSome
  | .ack k _ _ target _ | .nack k _ _ target _ => (boxes k).validTarget target
  | .close k _ => ¬s.closed k

def attempt (s : Mailboxes) (t : Attempt) : Except MailboxError (Mailboxes × Reply) :=
  match t.verdict, s.opens boxes t.action with
  | .busy, true   => .ok (s, .busy)
  | .aborts, true => .error .integrity
  | _, _          => (fun out => (out.fst, .result out.snd)) <$> s.perform boxes t.action

def afterAttempt (s : Mailboxes) (t : Attempt) : Mailboxes :=
  ((·.fst) <$> s.attempt boxes t).orElseKeep s

def afterAttempts (s : Mailboxes) (ts : List Attempt) : Mailboxes :=
  ts.foldl (·.afterAttempt boxes) s

-- The call answers that it has claimed the message `m`.
def claims (m : String) (s : Mailboxes) (t : Attempt) : Bool :=
  match s.attempt boxes t with
  | .ok (_, .result res) => res.status = .claimed ∧ res.row.any (·.messageId = m)
  | _                    => false

def claimCount (m : String) : Mailboxes → List Attempt → Nat
  | _, []      => 0
  | s, t :: ts => (s.claims boxes m t).toNat + claimCount m (s.afterAttempt boxes t) ts

end Mailboxes

section Rows

-- The columns that the status decides on
def MailRow.consistent (row : MailRow) : Prop :=
  (row.leaseOwner.isSome ↔ row.status = .leased) ∧ (row.leaseToken.isSome ↔ row.status = .leased) ∧
    (row.leaseExpiresAt.isSome ↔ row.status = .leased) ∧ (row.nextRetryAt.isSome ↔ row.status = .retryWait)

-- The rows come in the order of their insertion.
def MailDb.contents (db : MailDb) : List Content :=
  db.rows.map (·.content)

variable {boxes : Nat → PersistentMailbox} {s s' : Mailboxes} {a : Action} {res : MailboxResult}
  {db db' : MailDb} {row : MailRow} {m : String} {capacity : Nat}

namespace MailDb

theorem contents_modify {p : MailRow → Bool} {f : MailRow → MailRow}
    (h : ∀ row, p row → (f row).keys ⊆ row.keys) (hf : ∀ row, (f row).content = row.content) :
    MailDb.contents (Table.modify db p f h) = db.contents := by
  simp only [contents, Table.modify, List.map_map]
  refine List.map_congr_left fun row _ => ?_
  simp only [Function.comp]
  split
  · exact hf row
  · rfl

theorem contents_update {f : MailRow → MailRow} (h : ∀ row, (f row).keys = row.keys)
    (hf : ∀ row, (f row).content = row.content) : (db.update m f h).contents = db.contents :=
  contents_modify (fun row _ => h row ▸ List.Subset.refl _) hf

theorem contents_release {box : PersistentMailbox} {now : DateTime} :
    (box.release db now).contents = db.contents :=
  contents_modify (f := (·.unleased .pending none now)) _ fun _ => rfl

theorem contents_insert (h : db.insert? row = some db') : db'.contents = db.contents ++ [row.content] := by
  simp [contents, Table.insert?_rows h]

theorem lt_nextSequence {c : Content} (h : c ∈ db.contents) : c.sequenceNo < db.nextSequence := by
  have ⟨row, hm, he⟩ := List.mem_map.mp h
  have hn : c.sequenceNo ∈ db.rows.map (·.sequenceNo) := List.mem_map.mpr ⟨row, hm, he ▸ rfl⟩
  exact Nat.lt_succ_of_le <| List.le_max_of_le hn (le_refl _)

theorem activeCount_update {f : MailRow → MailRow} (h : ∀ row, (f row).keys = row.keys)
    (hr : db.row? m = some row) (ha : row.status ≠ .delivered) :
    (db.update m f h).activeCount ≤ db.activeCount := by
  refine Table.rowcount_modify_le fun other hm hp _ => ?_
  cases (row?_eq_some_iff.mpr ⟨hm, by simpa using hp⟩).symm.trans hr
  simpa using ha

theorem activeCount_release {box : PersistentMailbox} {now : DateTime} :
    (box.release db now).activeCount ≤ db.activeCount := by
  refine Table.rowcount_modify_le fun row _ hp _ => ?_
  simp only [decide_eq_true_eq] at hp
  simp [hp.1]

theorem activeCount_insert (h : db.insert? row = some db') : db'.activeCount ≤ db.activeCount + 1 := by
  simp only [activeCount, Table.insert?_rows h, List.countP_append]
  exact Nat.add_le_add_left List.countP_le_length _

-- How often the message has been claimed, zero for one that is not there
def attemptOf (db : MailDb) (m : String) : Nat :=
  ((db.row? m).map (·.attempt)).getD 0

theorem attemptOf_update {m' : String} {f : MailRow → MailRow} (h : ∀ row, (f row).keys = row.keys)
    (hf : ∀ row, (f row).attempt = row.attempt) : (db.update m' f h).attemptOf m = db.attemptOf m := by
  rw [attemptOf, attemptOf, row?_update]
  split
  case isFalse => rfl
  case isTrue  => cases db.row? m <;> simp [hf]

theorem attemptOf_release {box : PersistentMailbox} {now : DateTime} :
    (box.release db now).attemptOf m = db.attemptOf m := by
  rw [attemptOf, attemptOf, row?_release, Option.map_map]
  congr 2
  funext row
  simp only [Function.comp]
  split <;> rfl

end MailDb

section Effect

theorem activeCount_lt_of_inserted {k : Nat} {env : MailEnvelope} {now : DateTime}
    (h : s.perform boxes (.enqueue k env now) = .ok (s', res)) (hs : res.status = .inserted) :
    s.db.activeCount < (boxes k).capacity := by
  have ⟨⟨db, res⟩, ho, hd⟩ := Except.map_eq_ok_iff.mp h
  cases hd
  unfold PersistentMailbox.enqueue at ho
  split at ho
  case isTrue => cases ho; cases hs
  split at ho
  case isTrue => cases ho
  split at ho
  case h_1 => cases ho; cases hs
  split at ho
  case isTrue         => cases ho; cases hs
  case isFalse hspace => exact Nat.lt_of_not_le hspace

theorem MailRow.active_of_claimable {target now : String} (h : row.claimable target now = true) :
    row.status ≠ .delivered := by
  intro hd
  simp [MailRow.claimable, hd] at h

namespace Effect

theorem contents (e : Effect boxes s a s' res) :
    s'.db.contents = s.db.contents ∨
      ∃ c, s'.db.contents = s.db.contents ++ [c] ∧ ∀ k ∈ s.db.contents, k.sequenceNo < c.sequenceNo := by
  cases e
  case none             => exact .inl rfl
  case claim            => exact .inl <| MailDb.contents_update (fun _ => MailRow.keys_claimed) fun _ => rfl
  case renew            => exact .inl <| MailDb.contents_update (fun _ => MailRow.keys_renewed) fun _ => rfl
  case ack              => exact .inl <| MailDb.contents_update (fun _ => MailRow.keys_unleased) fun _ => rfl
  case nack             => exact .inl <| MailDb.contents_update (fun _ => MailRow.keys_unleased) fun _ => rfl
  case close            => exact .inl MailDb.contents_release
  case enqueue hf hi hs => exact .inr ⟨_, MailDb.contents_insert hi, fun _ => MailDb.lt_nextSequence⟩

-- Only an insertion can make the count of the active rows grow.
theorem activeCount (e : Effect boxes s a s' res) :
    s'.db.activeCount ≤ s.db.activeCount ∨
      res.status = .inserted ∧ s'.db.activeCount ≤ s.db.activeCount + 1 := by
  cases e
  case none             => exact .inl (le_refl _)
  case enqueue hf hi hs => exact .inr ⟨hs, MailDb.activeCount_insert hi⟩
  case close            => exact .inl MailDb.activeCount_release
  case claim hm hc he   =>
    refine .inl <| MailDb.activeCount_update (fun _ => MailRow.keys_claimed) (MailDb.row?_of_mem hm) ?_
    exact MailRow.active_of_claimable hc
  case renew hr hl he   =>
    exact .inl <| MailDb.activeCount_update (fun _ => MailRow.keys_renewed) hr (by simp [hl.leased])
  case ack hr hl hs     =>
    exact .inl <| MailDb.activeCount_update (fun _ => MailRow.keys_unleased) hr (by simp [hl.leased])
  case nack hr hl hs    =>
    exact .inl <| MailDb.activeCount_update (fun _ => MailRow.keys_unleased) hr (by simp [hl.leased])

theorem attempt (e : Effect boxes s a s' res) :
    s'.db.attemptOf m = s.db.attemptOf m +
      (decide (res.status = .claimed ∧ res.row.any (·.messageId = m) = true)).toNat := by
  cases e
  case none hn          =>
    have : res.status ≠ .claimed := fun h => by simp [h, ResultStatus.changes] at hn
    simp [this]
  case renew hr hl he   => exact MailDb.attemptOf_update (fun _ => MailRow.keys_renewed) fun _ => rfl
  case ack hr hl hs     =>
    simp only [hs]
    exact MailDb.attemptOf_update (fun _ => MailRow.keys_unleased) fun _ => rfl
  case nack hr hl hs    =>
    simp only [hs]
    exact MailDb.attemptOf_update (fun _ => MailRow.keys_unleased) fun _ => rfl
  case close hs         =>
    simp only [hs]
    exact MailDb.attemptOf_release
  case enqueue hf hi hs =>
    rw [MailDb.attemptOf, MailDb.row?_insert hi, MailDb.attemptOf]
    split
    case isTrue hm => simp [hs, hm, hf, MailRow.inserted]
    case isFalse   => simp [hs]
  case claim hm hc he   =>
    rename_i row _ _ _ _ _
    rw [MailDb.attemptOf, MailDb.row?_update, MailDb.attemptOf]
    by_cases hm' : m = row.messageId
    case pos => simp [hm', MailDb.row?_of_mem hm, MailRow.claimed]
    case neg => simp [hm', Ne.symm hm', MailRow.claimed]

end Effect

theorem RowStep.consistent {latest latest' : Option Lease} {row? : Option MailRow}
    (h : RowStep boxes m res a row? latest (some row) latest') (hr : ∀ old, row? = some old → old.consistent) :
    row.consistent := by
  cases h
  case same                => exact hr _ rfl
  case enqueue             => simp [MailRow.consistent, MailRow.inserted]
  case claim               => simp [MailRow.consistent, MailRow.claimed]
  case ack                 => simp [MailRow.consistent, MailRow.unleased]
  case nack                => simp [MailRow.consistent, MailRow.unleased]
  case close               => simp [MailRow.consistent, MailRow.unleased]
  case renew old _ _ _ _ hl =>
    have ⟨h₁, h₂, _, h₄⟩ := hr old rfl
    exact ⟨h₁, h₂, by simp [MailRow.renewed, hl.leased], h₄⟩

end Effect

-- The table at any time
structure Sound (capacity : Nat) (db : MailDb) : Prop where
  sequences : db.contents.Pairwise (·.sequenceNo < ·.sequenceNo)
  rows      : ∀ row ∈ db, row.consistent
  bounded   : db.activeCount ≤ capacity

namespace Mailboxes

variable {t : Attempt} {ts : List Attempt}

-- A call that reaches its transaction and is rolled back has done nothing.
theorem attempt_cases (boxes : Nat → PersistentMailbox) (s : Mailboxes) (t : Attempt) :
    (s.afterAttempt boxes t = s ∧ ∀ m, s.claims boxes m t = false) ∨
      ∃ s' res, s.perform boxes t.action = .ok (s', res) ∧ s.afterAttempt boxes t = s' ∧
        ∀ m, s.claims boxes m t = decide (res.status = .claimed ∧ res.row.any (·.messageId = m) = true) := by
  unfold afterAttempt claims attempt
  split
  case h_1 => exact .inl ⟨rfl, fun _ => rfl⟩
  case h_2 => exact .inl ⟨rfl, fun _ => rfl⟩
  case h_3 =>
    cases h : s.perform boxes t.action with
    | error  => exact .inl ⟨rfl, fun _ => rfl⟩
    | ok out => exact .inr ⟨out.fst, out.snd, rfl, rfl, fun _ => rfl⟩

theorem sound_attempt (hc : ∀ k, (boxes k).capacity = capacity) (hs : Sound capacity s.db) :
    Sound capacity (s.afterAttempt boxes t).db := by
  cases attempt_cases boxes s t with
  | inl h => rwa [h.1]
  | inr h =>
    have ⟨s', res, hp, ha, _⟩ := h
    have e := perform_effect hp
    rw [ha]
    refine ⟨?_, fun row hm => ?_, ?_⟩
    case refine_1 =>
      cases e.contents with
      | inl he => exact he ▸ hs.sequences
      | inr he =>
        have ⟨c, he, hlt⟩ := he
        rw [he, List.pairwise_append]
        exact ⟨hs.sequences, List.pairwise_singleton .., by simpa using hlt⟩
    case refine_2 =>
      have hr := @Effect.row_step boxes _ _ _ row.messageId none _ e
      rw [MailDb.row?_of_mem hm] at hr
      exact hr.consistent fun old ho => hs.rows old (MailDb.row?_eq_some_iff.mp ho).1
    case refine_3 =>
      cases e.activeCount with
      | inl he => exact Nat.le_trans he hs.bounded
      | inr he =>
        have hlt : s.db.activeCount < capacity := by
          cases hact : t.action with
          | enqueue k => exact hc k ▸ activeCount_lt_of_inserted (hact ▸ hp) he.1
          | _         =>
            exfalso
            rw [hact] at e
            cases e <;> simp_all [ResultStatus.changes]
        exact Nat.le_trans he.2 hlt

theorem contents_attempt (boxes : Nat → PersistentMailbox) (s : Mailboxes) (t : Attempt) :
    s.db.contents <+: (s.afterAttempt boxes t).db.contents := by
  cases attempt_cases boxes s t with
  | inl he => exact he.1.symm ▸ List.prefix_rfl
  | inr he =>
    have ⟨s', res, hp, ha, _⟩ := he
    rw [ha]
    cases (perform_effect hp).contents with
    | inl hs => exact hs.symm ▸ List.prefix_rfl
    | inr hs =>
      have ⟨c, hs, _⟩ := hs
      exact ⟨[c], hs.symm⟩

theorem attemptOf_attempt (boxes : Nat → PersistentMailbox) (s : Mailboxes) (t : Attempt) (m : String) :
    (s.afterAttempt boxes t).db.attemptOf m = s.db.attemptOf m + (s.claims boxes m t).toNat := by
  cases attempt_cases boxes s t with
  | inl he => simp [he.1, he.2]
  | inr he =>
    have ⟨s', res, hp, ha, hcl⟩ := he
    rw [ha, hcl, (perform_effect hp).attempt]

theorem sound_attempts (hc : ∀ k, (boxes k).capacity = capacity) (hs : Sound capacity s.db) :
    Sound capacity (s.afterAttempts boxes ts).db := by
  induction ts generalizing s with
  | nil          => exact hs
  | cons t ts hi => exact hi (sound_attempt hc hs)

theorem contents_attempts : s.db.contents <+: (s.afterAttempts boxes ts).db.contents := by
  induction ts generalizing s with
  | nil          => exact List.prefix_rfl
  | cons t ts hi => exact (contents_attempt boxes s t).trans hi

theorem attemptOf_attempts :
    (s.afterAttempts boxes ts).db.attemptOf m = s.db.attemptOf m + s.claimCount boxes m ts := by
  induction ts generalizing s with
  | nil          => rfl
  | cons t ts hi =>
    rw [claimCount, ← Nat.add_assoc, ← attemptOf_attempt]
    exact hi

-- An answer that no row has been inserted
theorem enqueue_unchanged {k : Nat} {env : MailEnvelope} {now : DateTime} {verdict : Verdict} {reply : Reply}
    (h : s.attempt boxes ⟨.enqueue k env now, verdict⟩ = .ok (s', reply))
    (hn : ∀ res, reply = .result res → res.status ≠ .inserted) : s'.db = s.db := by
  unfold attempt at h
  split at h
  case h_1 => cases h; rfl
  case h_2 => cases h
  case h_3 =>
    have ⟨⟨s₁, res⟩, hp, he⟩ := Except.map_eq_ok_iff.mp h
    cases he
    have e := enqueue_effect hp
    cases e
    case none             => rfl
    case enqueue hf hi hs => exact absurd hs (hn res rfl)

end Mailboxes
end Rows

theorem mail_table (boxes : Nat → PersistentMailbox) (capacity : Nat)
    (hc : ∀ k, (boxes k).capacity = capacity) (ts : List Attempt) :
    let s := Mailboxes.init.afterAttempts boxes ts
    (s.db.rows.map (·.messageId)).Nodup ∧
    (∀ later, s.db.contents <+: (s.afterAttempts boxes later).db.contents) ∧
    s.db.contents.Pairwise (·.sequenceNo < ·.sequenceNo) ∧
    (∀ row ∈ s.db, (row.leaseOwner.isSome ↔ row.status = .leased) ∧
      (row.leaseToken.isSome ↔ row.status = .leased) ∧ (row.leaseExpiresAt.isSome ↔ row.status = .leased) ∧
      (row.nextRetryAt.isSome ↔ row.status = .retryWait)) ∧
    (∀ row ∈ s.db, row.attempt = Mailboxes.init.claimCount boxes row.messageId ts) ∧
    s.db.activeCount ≤ capacity ∧
    ∀ k env now verdict s' reply, s.attempt boxes ⟨.enqueue k env now, verdict⟩ = .ok (s', reply) →
      (reply = .busy ∨ ∃ res, reply = .result res ∧
        res.status ∈ [ResultStatus.existing, .backpressure, .closed]) → s'.db = s.db := by
  intro s
  have hs : Sound capacity s.db := by
    refine Mailboxes.sound_attempts hc ⟨.nil, fun row h => absurd h Table.not_mem_empty, ?_⟩
    exact Nat.zero_le _
  refine ⟨?_, fun _ => Mailboxes.contents_attempts, hs.sequences, hs.rows, fun row hm => ?_, hs.bounded, ?_⟩
  case refine_1 =>
    refine List.pairwise_map.mpr <| s.db.unique.imp fun h he => h _ List.mem_cons_self ?_
    simp [MailRow.keys, he]
  case refine_2 =>
    have h := @Mailboxes.attemptOf_attempts boxes .init row.messageId ts
    have hr : s.db.row? row.messageId = some row := MailDb.row?_of_mem hm
    rw [MailDb.attemptOf, show (Mailboxes.init.afterAttempts boxes ts).db.row? _ = _ from hr] at h
    simpa [MailDb.attemptOf, Mailboxes.init, MailDb.row?] using h
  case refine_3 =>
    intro k env now verdict s' reply h hr
    refine Mailboxes.enqueue_unchanged h fun res he hi => ?_
    cases hr with
    | inl hb => cases hb.symm.trans he
    | inr hb =>
      obtain ⟨res', he', hm⟩ := hb
      cases he'.symm.trans he
      simp [hi] at hm

namespace Sample

def attempts : List Attempt :=
  (claimed ++ reclaimed).map ({ action := ·, verdict := .commits })

end Sample

-- The message is claimed a second time after its lease has run out.
theorem mail_table_reclaimed :
    Mailboxes.init.claimCount Sample.box "m" Sample.attempts = 2 ∧
      (Mailboxes.init.afterAttempts Sample.box Sample.attempts).db.activeCount ≤ 1000 := by
  have ⟨_, _, _, _, _, h, _⟩ := mail_table Sample.box 1000 (fun _ => rfl) Sample.attempts
  exact ⟨by decide +kernel, h⟩

end Mail
