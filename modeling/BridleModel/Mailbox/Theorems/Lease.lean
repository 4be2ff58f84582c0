import BridleModel.Library.Tokens
import BridleModel.Mailbox.System

open Python

namespace Mail

-- The lease that a claim of a message granted, with the expiry as of its last renewal.
structure Lease where
  token      : String
  consumerId : String
  target     : String
  expiresAt  : DateTime
deriving DecidableEq

-- The latest lease of the message `m` as the answer to a call shows it.
def answeredLease (boxes : Nat → PersistentMailbox) (m : String) (latest : Option Lease) :
    Action → MailboxResult → Option Lease
  | .claim k target _ token, ⟨.claimed, some row, _, some expiresAt, _⟩ =>
    if row.messageId = m then some ⟨token, (boxes k).consumerId, target.toUri, expiresAt⟩ else latest
  | .renew _ id _ _ _, ⟨.renewed, _, _, some expiresAt, _⟩ =>
    if id = m then latest.map ({ · with expiresAt }) else latest
  | _, _ => latest

def noteLease (boxes : Nat → PersistentMailbox) (m : String) (latest : Option Lease) (s : Mailboxes)
    (a : Action) : Option Lease :=
  match s.perform boxes a with
  | .ok (_, res) => answeredLease boxes m latest a res
  | .error _     => latest

def latestLease (boxes : Nat → PersistentMailbox) (m : String) (acts : List Action) :
    Option Lease :=
  (system boxes).history (noteLease boxes m) none .init acts

-- What one call with the answer `res` does to the message `m` and to its latest lease.
inductive RowStep (boxes : Nat → PersistentMailbox) (m : String) (res : MailboxResult) :
    Action → Option MailRow → Option Lease → Option MailRow → Option Lease → Prop
  | same : RowStep boxes m res a row? latest row? latest
  | enqueue (id : env.messageId = m) :
      RowStep boxes m res (.enqueue k env now) none latest (some (.inserted env seq now)) latest
  | claim (claimable : row.claimable target.toUri now.utcText = true)
      (claimed : res.status = .claimed) (id : res.row.map (·.messageId) = some m) :
      RowStep boxes m res (.claim k target now token) (some row) latest
        (some (row.claimed (boxes k).consumerId token expiresAt now))
        (some ⟨token, (boxes k).consumerId, target.toUri, expiresAt⟩)
  | renew (leases : Leases (boxes k) row token target now) :
      RowStep boxes m res (.renew k m token target now) (some row) latest
        (some (row.renewed expiresAt now)) (latest.map ({ · with expiresAt }))
  | ack (leases : Leases (boxes k) row token target now) (acked : res.status = .acked) :
      RowStep boxes m res (.ack k m token target now) (some row) latest
        (some (row.unleased .delivered none now)) latest
  | nack (leases : Leases (boxes k) row token target now) (nacked : res.status = .nacked) :
      RowStep boxes m res (.nack k m token target now) (some row) latest
        (some (row.unleased .retryWait (some retryAt) now)) latest
  | close (leased : row.status = .leased) (owner : row.leaseOwner = some (boxes k).consumerId) :
      RowStep boxes m res (.close k now) (some row) latest
        (some (row.unleased .pending none now)) latest

section Effect

variable {boxes : Nat → PersistentMailbox} {s s' : Mailboxes} {a : Action} {m : String}
  {row : MailRow} {latest : Option Lease} {res : MailboxResult}

theorem answeredLease_eq_self (hc : res.status ≠ .claimed) (hr : res.status ≠ .renewed) :
    answeredLease boxes m latest a res = latest := by
  obtain ⟨status, row, token, expiresAt, retryAt⟩ := res
  cases a <;> cases status <;> first | rfl | contradiction

namespace RowStep

variable {f : MailRow → MailRow} {m' : String} {lease : Option Lease}

theorem update (hk : ∀ row, (f row).keys = row.keys) (hr : s.db.row? m' = some row)
    (h : RowStep boxes m' res a (some row) latest (some (f row)) lease) :
    RowStep boxes m res a (s.db.row? m) latest ((s.db.update m' f hk).row? m)
      (if m' = m then lease else latest) := by
  rw [MailDb.row?_update]
  by_cases hm : m' = m
  case neg => simpa [hm, Ne.symm hm] using .same
  case pos => subst hm; simpa [hr] using h

theorem update_row (hk : ∀ row, (f row).keys = row.keys) (hr : s.db.row? m' = some row)
    (h : RowStep boxes m' res a (some row) latest (some (f row)) latest) :
    RowStep boxes m res a (s.db.row? m) latest ((s.db.update m' f hk).row? m) latest := by
  simpa using update hk hr h

end RowStep

theorem Effect.row_step (e : Effect boxes s a s' res) :
    RowStep boxes m res a (s.db.row? m) latest (s'.db.row? m) (answeredLease boxes m latest a res) := by
  cases e
  case none hn        =>
    have hc : res.status ≠ .claimed := fun h => by simp [h, ResultStatus.changes] at hn
    have hr : res.status ≠ .renewed := fun h => by simp [h, ResultStatus.changes] at hn
    exact answeredLease_eq_self hc hr ▸ .same
  case renew hr hl he => exact RowStep.update (fun _ => MailRow.keys_renewed) hr (.renew hl)
  case ack hr hl hs   => exact RowStep.update_row (fun _ => MailRow.keys_unleased) hr (.ack hl hs)
  case nack hr hl hs  => exact RowStep.update_row (fun _ => MailRow.keys_unleased) hr (.nack hl hs)
  case claim hm hc he =>
    exact RowStep.update (fun _ => MailRow.keys_claimed) (MailDb.row?_of_mem hm) (.claim hc rfl rfl)
  case enqueue hf hi hs =>
    rw [answeredLease_eq_self (by simp [hs]) (by simp [hs]), MailDb.row?_insert hi]
    split
    case isFalse   => exact .same
    case isTrue hm => exact hm ▸ hf ▸ .enqueue rfl
  case close hs =>
    rw [answeredLease_eq_self (by simp [hs]) (by simp [hs]), MailDb.row?_release]
    cases hr : s.db.row? m
    case none => exact .same
    case some row =>
      simp only [Option.map_some]
      split
      case isFalse  => exact .same
      case isTrue h => exact .close h.left h.right

theorem Mailboxes.row_step (boxes : Nat → PersistentMailbox) (s : Mailboxes) (a : Action)
    (m : String) (latest : Option Lease) :
    ∃ res, RowStep boxes m res a (s.db.row? m) latest ((s.after boxes a).db.row? m)
      (noteLease boxes m latest s a) := by
  unfold after noteLease
  cases h : s.perform boxes a with
  | error e => exact ⟨.of .empty none, .same⟩
  | ok out  => exact ⟨out.snd, (perform_effect h).row_step⟩

end Effect

-- The message `m` is leased under the token `t`.
def Holds (s : Mailboxes) (m t : String) : Prop :=
  ∃ row, s.db.row? m = some row ∧ row.status = .leased ∧ row.leaseToken = some t

section Holds

variable {boxes : Nat → PersistentMailbox} {s : Mailboxes} {a : Action} {m t : String}

theorem holds_iff : Holds s m t ↔
    (s.db.row? m).map (fun row => (row.status, row.leaseToken)) = some (.leased, some t) := by
  simp [Holds, Option.map_eq_some_iff]

instance : Decidable (Holds s m t) :=
  decidable_of_iff _ holds_iff.symm

theorem Holds.origin (h : Holds (s.after boxes a) m t) : Holds s m t ∨ a.draw = some t := by
  have ⟨row', hr', hl, ht⟩ := h
  have ⟨_, hs⟩ := Mailboxes.row_step boxes s a m none
  rw [hr'] at hs
  generalize hr : s.db.row? m = row?, noteLease boxes m none s a = lease at hs
  cases hs
  case same     => exact .inl ⟨_, hr, hl, ht⟩
  case enqueue  => cases hl
  case claim    => exact .inr ht
  case renew    => exact .inl ⟨_, hr, hl, ht⟩
  case ack      => cases hl
  case nack     => cases hl
  case close    => cases hl

theorem Leases.holds {row : MailRow} {box : PersistentMailbox} {target : AgentAddress}
    {now : DateTime} (hr : s.db.row? m = some row) (h : Leases box row t target now) :
    Holds s m t :=
  ⟨row, hr, h.leased, h.token⟩

-- A claim leases a single message under the token that it draws.
theorem Holds.claimed {s' : Mailboxes} {res : MailboxResult} (e : Effect boxes s a s' res)
    (hd : a.draw = some t) (hn : ∀ m, ¬Holds s m t) : ∃ m, ∀ m', Holds s' m' t → m' = m := by
  cases e
  case none => exact ⟨"", fun m' h => absurd h (hn m')⟩
  case claim row _ _ _ _ _ hm hc he =>
    refine ⟨row.messageId, fun m' ⟨row', hr', h⟩ => ?_⟩
    rw [MailDb.row?_update] at hr'
    split at hr'
    case isTrue heq => exact heq
    case isFalse    => exact absurd ⟨row', hr', h⟩ (hn m')
  all_goals cases hd

theorem tokens (boxes : Nat → PersistentMailbox) : Tokens (system boxes) Holds Action.draw where
  origin hs h := by
    cases hs
    exact h.origin
  unique {s a s' t m₁ m₂} hs hd hn h₁ h₂ := by
    cases hs
    cases hp : s.perform boxes a with
    | error e => exact absurd (Mailboxes.after_of_error hp ▸ h₁) (hn m₁)
    | ok out  =>
      rw [Mailboxes.after_of_ok hp] at h₁ h₂
      have ⟨m, hm⟩ := Holds.claimed (Mailboxes.perform_effect hp) hd hn
      exact (hm m₁ h₁).trans (hm m₂ h₂).symm

-- A token that no message is leased under has no power.
theorem Mailboxes.after_presented (hp : a.presented = some t) (hn : ∀ m, ¬Holds s m t) :
    s.after boxes a = s := by
  unfold after
  cases hs : s.perform boxes a with
  | error e => rfl
  | ok out  =>
    have ⟨s', res⟩ := out
    cases perform_effect hs
    case none           => rfl
    case renew hr hl he => cases hp; exact absurd (hl.holds hr) (hn _)
    case ack hr hl hs   => cases hp; exact absurd (hl.holds hr) (hn _)
    case nack hr hl hs  => cases hp; exact absurd (hl.holds hr) (hn _)
    all_goals cases hp

end Holds

structure Lease.Of (row : MailRow) (lease : Lease) : Prop where
  token   : row.leaseToken = some lease.token
  owner   : row.leaseOwner = some lease.consumerId
  target  : row.targetAddress = lease.target
  expires : row.leaseExpiresAt = some lease.expiresAt.utcText

-- While a message is leased its row records the latest lease.
def Current (latest : Option Lease) (row? : Option MailRow) : Prop :=
  ∀ row, row? = some row → row.status = .leased → ∃ lease, latest = some lease ∧ lease.Of row

-- The calls that end a lease of the message `m`, as their answers show it.
inductive Supersedes (boxes : Nat → PersistentMailbox) (m : String) (lease : Lease)
    (s : Mailboxes) : Action → Prop
  | reclaim (answer : s.perform boxes (.claim k target now token) = .ok (s', res))
      (claimed : res.status = .claimed) (row : res.row.map (·.messageId) = some m)
      (expired : lease.expiresAt ≤ now) : Supersedes boxes m lease s (.claim k target now token)
  | ack (answer : s.perform boxes (.ack k m lease.token target now) = .ok (s', res))
      (acked : res.status = .acked) : Supersedes boxes m lease s (.ack k m lease.token target now)
  | nack (answer : s.perform boxes (.nack k m lease.token target now) = .ok (s', res))
      (nacked : res.status = .nacked) : Supersedes boxes m lease s (.nack k m lease.token target now)
  | close (opened : s.closed k = false) (owner : (boxes k).consumerId = lease.consumerId) :
      Supersedes boxes m lease s (.close k now)

-- The ack that delivers a message.
inductive Delivers (boxes : Nat → PersistentMailbox) (m : String) (lease : Lease) : Action → Prop
  | intro (owner : (boxes k).consumerId = lease.consumerId) (uri : AgentAddress.toUri target = lease.target)
      (unexpired : now < lease.expiresAt) : Delivers boxes m lease (.ack k m lease.token target now)

section Current

variable {boxes : Nat → PersistentMailbox} {a : Action} {m : String} {row row' : MailRow}
  {row? row?' : Option MailRow} {latest latest' : Option Lease}

theorem Leases.current {box : PersistentMailbox} {token : String} {target : AgentAddress}
    {now : DateTime} (h : Leases box row token target now) (hc : Current latest (some row)) :
    ∃ lease, latest = some lease ∧ lease.Of row ∧ token = lease.token ∧
      box.consumerId = lease.consumerId ∧ target.toUri = lease.target ∧ now < lease.expiresAt := by
  have ⟨lease, hl, ho⟩ := hc row rfl h.leased
  refine ⟨lease, hl, ho, ?_, ?_, ?_, ?_⟩
  · exact Option.some.inj <| h.token.symm.trans ho.token
  · exact Option.some.inj <| h.owner.symm.trans ho.owner
  · exact h.target.symm.trans ho.target
  · -- `ack` parses the text that `claim` or `renew` has rendered.
    have ⟨text, expiresAt, ht, hp, hn⟩ := h.unexpired
    cases Option.some.inj <| ht.symm.trans ho.expires
    rw [DateTime.parseUtc_utcText] at hp
    cases hp
    exact hn

namespace RowStep

theorem current (h : RowStep boxes m res a row? latest row?' latest') (hc : Current latest row?) :
    Current latest' row?' := by
  cases h
  case same => exact hc
  case claim hc' _ _ =>
    rintro _ ⟨⟩ -
    simp only [MailRow.claimable, decide_eq_true_eq] at hc'
    exact ⟨_, rfl, rfl, rfl, hc'.left, rfl⟩
  case renew hl =>
    rintro _ ⟨⟩ -
    have ⟨lease, hs, ho, _⟩ := hl.current hc
    exact ⟨_, congrArg _ hs, ho.token, ho.owner, ho.target, rfl⟩
  all_goals
    intro _ hr hs
    cases hr
    cases hs

-- A claim compares the texts of the timestamps.
theorem expired {target : String} {now : DateTime} {lease : Lease} (hs : row.status = .leased)
    (ho : lease.Of row) (h : row.claimable target now.utcText = true) :
    target = lease.target ∧ lease.expiresAt ≤ now := by
  simp only [MailRow.claimable, hs, ho.expires, decide_eq_true_eq] at h
  have ⟨ht, he⟩ := h
  exact ⟨ht.symm.trans ho.target, DateTime.utcText_le_iff.mp (by simpa using he)⟩

theorem delivers (h : RowStep boxes m res a row? latest (some row') latest')
    (hc : Current latest row?) (hs : row'.status = .delivered) :
    row? = some row' ∨ ∃ lease, latest = some lease ∧ Delivers boxes m lease a := by
  cases h
  case same => exact .inl rfl
  case ack hl _ =>
    have ⟨lease, hs, _, hk, ho, ht, hu⟩ := hl.current hc
    subst hk
    exact .inr ⟨lease, hs, .intro ho ht hu⟩
  case renew hl => cases hl.leased.symm.trans hs
  all_goals cases hs

theorem delivered (h : RowStep boxes m res a (some row) latest row?' latest')
    (hs : row.status = .delivered) : row?' = some row := by
  cases h
  case same         => rfl
  case claim _ _ hc => simp [MailRow.claimable, hs] at hc
  case renew hl     => cases hl.leased.symm.trans hs
  case ack _ hl     => cases hl.leased.symm.trans hs
  case nack _ hl    => cases hl.leased.symm.trans hs
  case close hl _   => cases hl.symm.trans hs

end RowStep

section Supersedes

variable {s : Mailboxes} {lease : Lease}

theorem Supersedes.of_lost (hr : s.db.row? m = some row) (hs : row.status = .leased)
    (ho : lease.Of row) (lost : ¬Holds (s.after boxes a) m lease.token) :
    Supersedes boxes m lease s a := by
  have kept {row' : MailRow} (hr' : (s.after boxes a).db.row? m = some row')
      (hs' : row'.status = .leased) (ht' : row'.leaseToken = some lease.token) :
      Supersedes boxes m lease s a := absurd ⟨row', hr', hs', ht'⟩ lost
  cases h : s.perform boxes a with
  | error e => exact kept (by rw [Mailboxes.after, h]; exact hr) hs ho.token
  | ok out  =>
    obtain ⟨s', res⟩ := out
    rw [Mailboxes.after, h] at kept
    have token_eq {t : String} (ht : row.leaseToken = some t) : t = lease.token :=
      Option.some.inj <| ht.symm.trans ho.token
    have step : RowStep boxes m res a (s.db.row? m) none (s'.db.row? m)
        (answeredLease boxes m none a res) := (Mailboxes.perform_effect h).row_step
    rw [hr] at step
    generalize hr' : s'.db.row? m = row', answeredLease boxes m none a res = lease' at step
    cases step
    case same              => exact kept hr' hs ho.token
    case renew             => exact kept hr' hs ho.token
    case claim hs' hid hc' => exact .reclaim h hs' hid (RowStep.expired hs ho hc').right
    case ack hs' hl        => exact token_eq hl.token ▸ .ack (token_eq hl.token ▸ h) hs'
    case nack hs' hl       => exact token_eq hl.token ▸ .nack (token_eq hl.token ▸ h) hs'
    case close k now hl hw =>
      cases hk : s.closed k with
      | true  =>
        cases h
        rw [Mailboxes.close, if_pos hk] at kept
        exact kept hr hs ho.token
      | false => exact .close hk <| Option.some.inj <| hw.symm.trans ho.owner

theorem Supersedes.lost (h : Supersedes boxes m lease s a) (hr : s.db.row? m = some row)
    (hs : row.status = .leased) (ho : lease.Of row) (hd : a.draw ≠ some lease.token) :
    ¬Holds (s.after boxes a) m lease.token := by
  cases h
  case reclaim answer claimed id _ =>
    rw [Mailboxes.after_of_ok answer]
    cases Mailboxes.claim_effect answer
    case none hn => simp [claimed, ResultStatus.changes] at hn
    case claim row' _ _ _ _ =>
      have hm : row'.messageId = m := Option.some.inj id
      intro ⟨row₁, hr₁, _, ht₁⟩
      rw [MailDb.row?_update, if_pos hm.symm, hr] at hr₁
      cases hr₁
      exact hd ht₁
  case ack answer acked =>
    rw [Mailboxes.after_of_ok answer]
    cases Mailboxes.ack_effect answer
    case none hn => simp [acked, ResultStatus.changes] at hn
    case ack =>
      intro ⟨row₁, hr₁, hs₁, _⟩
      rw [MailDb.row?_update, if_pos rfl, hr] at hr₁
      cases hr₁
      cases hs₁
  case nack answer nacked =>
    rw [Mailboxes.after_of_ok answer]
    cases Mailboxes.nack_effect answer
    case none hn => simp [nacked, ResultStatus.changes] at hn
    case nack =>
      intro ⟨row₁, hr₁, hs₁, _⟩
      rw [MailDb.row?_update, if_pos rfl, hr] at hr₁
      cases hr₁
      cases hs₁
  case close k now hk hw =>
    have hafter : s.after boxes (.close k now) = s.close (boxes k) k now := rfl
    rw [hafter, Mailboxes.close, if_neg (Bool.eq_false_iff.mp hk)]
    intro ⟨row₁, hr₁, hs₁, _⟩
    rw [MailDb.row?_release, hr, Option.map_some, if_pos ⟨hs, hw ▸ ho.owner⟩] at hr₁
    cases hr₁
    cases hs₁

end Supersedes
end Current

section Runs

variable {boxes : Nat → PersistentMailbox} {s : Mailboxes} {acts : List Action} {m : String}
  {row : MailRow}

theorem current_afterAll :
    Current (latestLease boxes m acts) ((Mailboxes.init.afterAll boxes acts).db.row? m) := by
  refine TransitionSystem.history_invariant (M := system boxes)
    (I := fun latest s => Current latest (s.db.row? m)) ?_ ?_ system_run
  · rintro latest s _ a hc ⟨⟩
    have ⟨_, h⟩ := Mailboxes.row_step boxes s a m latest
    exact h.current hc
  · intro row hr
    cases hr

theorem delivered_afterAll (hr : s.db.row? m = some row) (hs : row.status = .delivered)
    (later : List Action) : (s.afterAll boxes later).db.row? m = some row := by
  refine TransitionSystem.run_preserves (M := system boxes) (I := (·.db.row? m = some row)) ?_ hr
    system_run
  rintro s _ a hr ⟨⟩
  have ⟨_, h⟩ := Mailboxes.row_step boxes s a m none
  rw [hr] at h
  exact h.delivered hs

theorem not_claimed (hr : s.db.row? m = some row) (hs : row.status = .delivered) {k : Nat}
    {target : AgentAddress} {now : DateTime} {token : String} {s' : Mailboxes} {res : MailboxResult}
    (h : s.perform boxes (.claim k target now token) = .ok (s', res))
    (hc : res.status = .claimed) : ∃ row', res.row = some row' ∧ row'.messageId ≠ m := by
  cases Mailboxes.claim_effect h
  case none hn => simp [hc, ResultStatus.changes] at hn
  case claim row' _ hm _ _ =>
    refine ⟨_, rfl, fun he => ?_⟩
    have hr' : s.db.row? m = some row' := he ▸ MailDb.row?_of_mem hm
    cases hr.symm.trans hr'
    have hclaimable : row.claimable target.toUri now.utcText = true := by assumption
    simp [MailRow.claimable, hs] at hclaimable

end Runs

theorem lease_fencing (boxes : Nat → PersistentMailbox) (acts : List Action) (m : String)
    (fresh : (acts.filterMap Action.draw).Nodup) :
    let s := Mailboxes.init.afterAll boxes acts
    (∀ pre mid post t a, acts = pre ++ mid ++ post →
      Holds (Mailboxes.init.afterAll boxes pre) m t →
      ¬Holds (Mailboxes.init.afterAll boxes (pre ++ mid)) m t →
      a.presented = some t → s.after boxes a = s) ∧
    (∀ t a, Holds s m t → a.draw ≠ some t →
      ∃ lease, latestLease boxes m acts = some lease ∧ lease.token = t ∧
        (¬Holds (s.after boxes a) m t ↔ Supersedes boxes m lease s a)) ∧
    (∀ a row, (s.after boxes a).db.row? m = some row → row.status = .delivered →
      s.db.row? m = some row ∨
        ∃ lease, latestLease boxes m acts = some lease ∧ Delivers boxes m lease a) ∧
    (∀ row, s.db.row? m = some row → row.status = .delivered → ∀ later,
      let s' := s.afterAll boxes later
      s'.db.row? m = some row ∧
      ∀ k target now token s'' res, s'.perform boxes (.claim k target now token) = .ok (s'', res) →
        res.status = .claimed → ∃ row', res.row = some row' ∧ row'.messageId ≠ m) := by
  intro s
  have hcurrent : Current (latestLease boxes m acts) (s.db.row? m) := current_afterAll
  refine ⟨?_, ?_, ?_, ?_⟩
  · rintro pre mid post t a rfl held lost hp
    refine Mailboxes.after_presented hp fun m' => ?_
    have split {pre post : List Action} : (system boxes).run (Mailboxes.init.afterAll boxes pre) post =
        some (Mailboxes.init.afterAll boxes (pre ++ post)) := by
      rw [Mailboxes.afterAll, Mailboxes.afterAll, List.foldl_append]
      exact system_run
    refine (tokens boxes).superseded (s := .init) ?_ fresh system_run split split held lost
    rintro k t ⟨row, hr, _⟩
    cases hr
  · intro t a ⟨row, hr, hs, ht⟩ hd
    have ⟨lease, hl, ho⟩ := hcurrent row hr hs
    cases Option.some.inj <| ht.symm.trans ho.token
    exact ⟨lease, hl, rfl, .of_lost hr hs ho, fun h => h.lost hr hs ho hd⟩
  · intro a row hr hs
    have ⟨_, h⟩ := Mailboxes.row_step boxes s a m (latestLease boxes m acts)
    rw [hr] at h
    exact h.delivers hcurrent hs
  · intro row hr hs later s'
    have hr' : s'.db.row? m = some row := delivered_afterAll hr hs later
    exact ⟨hr', fun _ _ _ _ _ _ h hc => not_claimed hr' hs h hc⟩

-- The first consumer cannot acknowledge the message that the second one has taken over.
theorem lease_fencing_reclaimed :
    let s := Mailboxes.init.afterAll Sample.box (Sample.claimed ++ Sample.reclaimed)
    s.after Sample.box (.ack 0 "m" "t" Sample.map (Sample.clock 40)) = s := by
  have ⟨h, _⟩ := lease_fencing Sample.box (Sample.claimed ++ Sample.reclaimed) "m" (by decide)
  exact h Sample.claimed Sample.reclaimed [] "t" _ rfl (by decide +kernel) (by decide +kernel) rfl

end Mail
