import Mathlib.Logic.Function.Basic
import BridleModel.Library.Except
import BridleModel.Library.Execution
import BridleModel.Mailbox.Store

open Python

namespace Mail

-- One `mail.db` and the `_closed` flags of the mailboxes that are opened on it.
structure Mailboxes where
  db     : MailDb
  closed : Nat → Bool

-- The calls on the mailboxes, in any order. Each is one transaction. An action carries the values
-- that its call reads from the clock and from the token generator.
inductive Action
  | enqueue (box : Nat) (envelope : MailEnvelope) (now : DateTime)
  | claim (box : Nat) (target : AgentAddress) (now : DateTime) (token : String)
  | renew (box : Nat) (messageId token : String) (target : AgentAddress) (now : DateTime)
  | ack (box : Nat) (messageId token : String) (target : AgentAddress) (now : DateTime)
  | nack (box : Nat) (messageId token : String) (target : AgentAddress) (now : DateTime)
  | close (box : Nat) (now : DateTime)

-- `secrets.token_urlsafe(32)` in `claim`
def Action.draw : Action → Option String
  | .claim _ _ _ token => some token
  | _                  => none

-- The lease token that a call presents.
def Action.presented : Action → Option String
  | .renew _ _ token _ _ | .ack _ _ token _ _ | .nack _ _ token _ _ => some token
  | _ => none

namespace Mailboxes

def init : Mailboxes where
  db     := .empty
  closed := fun _ => false

def write (s : Mailboxes) (out : MailDb × MailboxResult) : Mailboxes × MailboxResult :=
  ({ s with db := out.fst }, out.snd)

def close (box : PersistentMailbox) (s : Mailboxes) (k : Nat) (now : DateTime) : Mailboxes :=
  if s.closed k then
    s
  else
    { db := box.release s.db now, closed := Function.update s.closed k true }

variable (boxes : Nat → PersistentMailbox)

def perform (s : Mailboxes) : Action → Except MailboxError (Mailboxes × MailboxResult)
  | .enqueue k envelope now   => s.write <$> (boxes k).enqueue (s.closed k) s.db envelope now
  | .claim k target now token => s.write <$> (boxes k).claim (s.closed k) s.db target now token
  | .renew k m token t now    => s.write <$> (boxes k).renew s.db m token t now
  | .ack k m token t now      => s.write <$> (boxes k).ack s.db m token t now
  | .nack k m token t now     => s.write <$> (boxes k).nack s.db m token t now
  | .close k now              => .ok (s.close (boxes k) k now, .of .closed none)

-- A call that raises is rolled back.
def after (s : Mailboxes) (a : Action) : Mailboxes :=
  ((·.fst) <$> s.perform boxes a).orElseKeep s

def afterAll (s : Mailboxes) (acts : List Action) : Mailboxes :=
  acts.foldl (·.after boxes) s

end Mailboxes

def system (boxes : Nat → PersistentMailbox) : TransitionSystem Mailboxes Action where
  init s   := s = .init
  step s a := some (s.after boxes a)

theorem system_run {boxes : Nat → PersistentMailbox} {s : Mailboxes} {acts : List Action} :
    (system boxes).run s acts = some (s.afterAll boxes acts) := by
  induction acts generalizing s
  case nil     => rfl
  case cons hi => exact hi

-- `_lease_matches` holds.
structure Leases (box : PersistentMailbox) (row : MailRow) (token : String) (target : AgentAddress)
    (now : DateTime) : Prop where
  leased    : row.status = .leased
  owner     : row.leaseOwner = some box.consumerId
  token     : row.leaseToken = some token
  target    : row.targetAddress = target.toUri
  unexpired : ∃ text expiresAt, row.leaseExpiresAt = some text ∧
    DateTime.parseUtc text = some expiresAt ∧ now < expiresAt

-- The answers of calls that have changed a message.
def ResultStatus.changes : ResultStatus → Bool
  | .inserted | .claimed | .renewed | .acked | .nacked => true
  | _ => false

-- Everything that a call can do to the database and what it answers then.
inductive Effect (boxes : Nat → PersistentMailbox) (s : Mailboxes) :
    Action → Mailboxes → MailboxResult → Prop
  | none (unchanged : res.status.changes = false) : Effect boxes s a s res
  | enqueue (fresh : s.db.row? env.messageId = .none)
      (insert : s.db.insert? (.inserted env s.db.nextSequence now) = some db)
      (inserted : res.status = .inserted) :
      Effect boxes s (.enqueue k env now) { s with db } res
  | claim (mem : row ∈ s.db) (claimable : row.claimable target.toUri now.utcText = true)
      (expires : now.add (timedelta (boxes k).leaseSeconds) = some expiresAt) :
      Effect boxes s (.claim k target now token) {
        s with
        db := s.db.update row.messageId (·.claimed (boxes k).consumerId token expiresAt now)
          fun _ => MailRow.keys_claimed
      } ⟨.claimed, some (row.claimed (boxes k).consumerId token expiresAt now), some token,
        some expiresAt, .none⟩
  | renew (found : s.db.row? m = some row) (leases : Leases (boxes k) row token target now)
      (expires : now.add (timedelta (boxes k).leaseSeconds) = some expiresAt) :
      Effect boxes s (.renew k m token target now)
        { s with db := s.db.update m (·.renewed expiresAt now) fun _ => MailRow.keys_renewed }
        ⟨.renewed, some (row.renewed expiresAt now), some token, some expiresAt, .none⟩
  | ack (found : s.db.row? m = some row) (leases : Leases (boxes k) row token target now)
      (acked : res.status = .acked) :
      Effect boxes s (.ack k m token target now) {
        s with
        db := s.db.update m (·.unleased .delivered .none now) fun _ => MailRow.keys_unleased
      } res
  | nack (found : s.db.row? m = some row) (leases : Leases (boxes k) row token target now)
      (nacked : res.status = .nacked) :
      Effect boxes s (.nack k m token target now) {
        s with
        db := s.db.update m (·.unleased .retryWait (some retryAt) now)
          fun _ => MailRow.keys_unleased
      } res
  | close (opened : s.closed k = false) (closed : res.status = .closed) :
      Effect boxes s (.close k now)
        { db := (boxes k).release s.db now, closed := Function.update s.closed k true } res

section Rows

variable {db db' : MailDb} {row : MailRow} {m m' : String}

namespace MailDb

theorem row?_eq_some_iff : db.row? m = some row ↔ row ∈ db ∧ row.messageId = m := by
  rw [row?, Table.lookup_eq_some_iff]
  simp [MailRow.keys, eq_comm]

theorem row?_of_mem (h : row ∈ db) : db.row? row.messageId = some row :=
  row?_eq_some_iff.mpr ⟨h, rfl⟩

theorem row?_update {f : MailRow → MailRow} {h} :
    (db.update m' f h).row? m = if m = m' then (db.row? m).map f else db.row? m := by
  rw [row?, update, Table.lookup_modify_of_keys_eq (fun a _ => h a)]
  change ((db.row? m).map _) = _
  cases hr : db.row? m with
  | none     => simp
  | some row =>
    have hm := row?_eq_some_iff.mp hr |>.right
    subst hm
    split <;> simp [*]

theorem row?_insert (h : db.insert? row = some db') :
    db'.row? m = if m = row.messageId then some row else db.row? m := by
  simp [row?, Table.lookup_insert? h, MailRow.keys]

theorem row?_release {box : PersistentMailbox} {now : DateTime} :
    (box.release db now).row? m = (db.row? m).map fun row =>
      if row.status = .leased ∧ row.leaseOwner = some box.consumerId then
        row.unleased .pending none now
      else
        row := by
  have h := Table.lookup_modify_of_keys_eq (t := db) (f := (·.unleased .pending none now))
    (p := fun row => row.status = .leased ∧ row.leaseOwner = some box.consumerId)
    (h := by simp [MailRow.keys_unleased]) (fun _ _ => MailRow.keys_unleased) (.message m)
  simp only [decide_eq_true_eq] at h
  exact h

end MailDb
end Rows

section Operations

variable {box : PersistentMailbox} {db db' : MailDb} {row : MailRow} {row? : Option MailRow}
  {m token : String} {target : AgentAddress} {now : DateTime} {res : MailboxResult} {closed : Bool}

theorem leases_of_leaseMatches (h : box.leaseMatches row? token target now = .ok true) :
    ∃ row, row? = some row ∧ Leases box row token target now := by
  unfold PersistentMailbox.leaseMatches at h
  cases row? with
  | none     => cases h
  | some row =>
    refine ⟨row, rfl, ?_⟩
    dsimp only at h
    split at h
    case isFalse     => cases h
    case isTrue hrow =>
      have ⟨leased, owner, token, target⟩ := hrow
      split at h
      case h_1           => cases h
      case h_2 text htext =>
        split at h
        case h_1                   => cases h
        case h_2 expiresAt hexpires =>
          have hnow : now < expiresAt := by simpa using h
          exact ⟨leased, owner, token, target, text, expiresAt, htext, hexpires, hnow⟩

end Operations

namespace Mailboxes

variable {boxes : Nat → PersistentMailbox} {s s' : Mailboxes} {a : Action} {res : MailboxResult}
  {k : Nat} {m token : String} {target : AgentAddress} {now : DateTime} {env : MailEnvelope}

theorem after_of_ok (h : s.perform boxes a = .ok (s', res)) : s.after boxes a = s' := by
  simp [after, h]

theorem after_of_error {e : MailboxError} (h : s.perform boxes a = .error e) :
    s.after boxes a = s := by
  simp [after, h]

theorem enqueue_effect (h : s.perform boxes (.enqueue k env now) = .ok (s', res)) :
    Effect boxes s (.enqueue k env now) s' res := by
  have ⟨⟨db, _⟩, ho, hs⟩ := Except.map_eq_ok_iff.mp h
  cases hs
  unfold PersistentMailbox.enqueue at ho
  split at ho
  case isTrue => cases ho; exact .none rfl
  split at ho
  case isTrue => cases ho
  split at ho
  case h_1          => cases ho; exact .none rfl
  case h_2 fresh =>
    split at ho
    case isTrue => cases ho; exact .none rfl
    dsimp only at ho
    split at ho
    case h_1        => cases ho
    case h_2 insert => cases ho; exact .enqueue fresh insert rfl

theorem claim_effect (h : s.perform boxes (.claim k target now token) = .ok (s', res)) :
    Effect boxes s (.claim k target now token) s' res := by
  have ⟨⟨db, _⟩, ho, hs⟩ := Except.map_eq_ok_iff.mp h
  cases hs
  unfold PersistentMailbox.claim at ho
  split at ho
  case isTrue => cases ho
  split at ho
  case isTrue => cases ho; exact .none rfl
  split at ho
  case h_1 => cases ho
  case h_2 expiresAt expires =>
    split at ho
    case h_1 => cases ho; exact .none rfl
    case h_2 row hrow =>
      have hm := List.mem_filter.mp <| List.argmin_mem <| Option.mem_def.mpr hrow
      cases ho
      rw [MailDb.row?_update, if_pos rfl, MailDb.row?_of_mem hm.left]
      exact .claim hm.left hm.right expires

theorem renew_effect (h : s.perform boxes (.renew k m token target now) = .ok (s', res)) :
    Effect boxes s (.renew k m token target now) s' res := by
  have ⟨⟨db, _⟩, ho, hs⟩ := Except.map_eq_ok_iff.mp h
  cases hs
  unfold PersistentMailbox.renew at ho
  split at ho
  case isTrue => cases ho
  split at ho
  case h_1 => cases ho
  case h_2 expiresAt expires =>
    split at ho
    case h_1 => cases ho
    case h_2 => cases ho; exact .none rfl
    case h_3 hl =>
      have ⟨row, hr, leases⟩ := leases_of_leaseMatches hl
      cases ho
      rw [MailDb.row?_update, if_pos rfl, hr]
      exact .renew hr leases expires

theorem ack_effect (h : s.perform boxes (.ack k m token target now) = .ok (s', res)) :
    Effect boxes s (.ack k m token target now) s' res := by
  have ⟨⟨db, _⟩, ho, hs⟩ := Except.map_eq_ok_iff.mp h
  cases hs
  unfold PersistentMailbox.ack at ho
  split at ho
  case isTrue => cases ho
  split at ho
  case h_1 => cases ho
  case h_2 => cases ho; exact .none rfl
  case h_3 hl =>
    have ⟨row, hr, leases⟩ := leases_of_leaseMatches hl
    cases ho
    exact .ack hr leases rfl

theorem nack_effect (h : s.perform boxes (.nack k m token target now) = .ok (s', res)) :
    Effect boxes s (.nack k m token target now) s' res := by
  have ⟨⟨db, _⟩, ho, hs⟩ := Except.map_eq_ok_iff.mp h
  cases hs
  unfold PersistentMailbox.nack at ho
  split at ho
  case isTrue => cases ho
  split at ho
  case h_1 => cases ho
  case h_2 => cases ho; exact .none rfl
  case h_3 hl =>
    have ⟨row, hr, leases⟩ := leases_of_leaseMatches hl
    split at ho
    case h_1 => cases ho
    case h_2 => cases ho; exact .nack hr leases rfl

theorem close_effect (h : s.perform boxes (.close k now) = .ok (s', res)) :
    Effect boxes s (.close k now) s' res := by
  cases h
  unfold close
  split
  case isTrue          => exact .none rfl
  case isFalse opened => exact .close (Bool.eq_false_iff.mpr opened) rfl

theorem perform_effect (h : s.perform boxes a = .ok (s', res)) : Effect boxes s a s' res := by
  cases a with
  | enqueue => exact enqueue_effect h
  | claim   => exact claim_effect h
  | renew   => exact renew_effect h
  | ack     => exact ack_effect h
  | nack    => exact nack_effect h
  | close   => exact close_effect h

end Mailboxes

-- Two consumers that share the messages to one agent.
namespace Sample

def map : AgentAddress where
  projectId  := "p"
  agentId    := "map"
  generation := 1

def box (k : Nat) : PersistentMailbox where
  projectId        := "p"
  consumerId       := if k = 0 then "first" else "second"
  capacity         := 1000
  leaseSeconds     := 30
  retryBaseSeconds := 1
  retryMaxSeconds  := 60

def envelope : MailEnvelope where
  messageId   := "m"
  messageType := "CodeChanged"
  source      := map
  target      := map
  payloadJson := "{}"

instance sixty : NeZero (60 : Nat) :=
  ⟨by decide⟩

def clock (second : Fin 60) : DateTime where
  year        := 2024
  month       := 1
  day         := 1
  hour        := 0
  minute      := 0
  second      := second
  microsecond := 0
  valid       := by simp [daysInMonth]

def claimed : List Action := [
  .enqueue 0 envelope (clock 0),
  .claim 0 map (clock 0) "t"
]

def reclaimed : List Action :=
  [.claim 1 map (clock 30) "u"]

end Sample
end Mail
