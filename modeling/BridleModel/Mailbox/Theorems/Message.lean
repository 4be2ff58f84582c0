import BridleModel.Mailbox.Theorems.Lease

open Python

namespace Mail

-- What a message keeps from its insertion on.
structure Content where
  messageId     : String
  sourceAddress : String
  targetAddress : String
  messageType   : String
  payloadJson   : String
  sequenceNo    : Nat
  createdAt     : String
deriving DecidableEq, Repr

def MailRow.content (row : MailRow) : Content where
  messageId     := row.messageId
  sourceAddress := row.sourceAddress
  targetAddress := row.targetAddress
  messageType   := row.messageType
  payloadJson   := row.payloadJson
  sequenceNo    := row.sequenceNo
  createdAt     := row.createdAt

section Content

variable {boxes : Nat → PersistentMailbox} {s s' : Mailboxes} {a : Action} {m : String}
  {row row' : MailRow} {latest latest' : Option Lease} {res : MailboxResult}

namespace RowStep

theorem content (h : RowStep boxes m res a (some row) latest row?' latest') :
    row?'.map (·.content) = some row.content := by
  cases h <;> rfl

theorem inserted (h : RowStep boxes m res a none latest (some row) latest') :
    ∃ k env seq now, a = .enqueue k env now ∧ row = .inserted env seq now := by
  cases h
  exact ⟨_, _, _, _, rfl, rfl⟩

end RowStep

namespace Mailboxes

theorem content_after (boxes : Nat → PersistentMailbox) (a : Action) (h : row ∈ s.db) :
    ∃ row' ∈ (s.after boxes a).db, row'.content = row.content := by
  have ⟨_, hs⟩ := row_step boxes s a row.messageId none
  rw [MailDb.row?_of_mem h] at hs
  have ⟨row', hr, hc⟩ := Option.map_eq_some_iff.mp hs.content
  exact ⟨row', (MailDb.row?_eq_some_iff.mp hr).left, hc⟩

theorem origin_after (h : row' ∈ (s.after boxes a).db) :
    (∃ row ∈ s.db, row'.content = row.content) ∨
      ∃ k env seq now, a = .enqueue k env now ∧ row' = .inserted env seq now := by
  have ⟨_, hs⟩ := row_step boxes s a row'.messageId none
  rw [MailDb.row?_of_mem h] at hs
  cases hr : s.db.row? row'.messageId with
  | none     => exact .inr <| RowStep.inserted (hr ▸ hs)
  | some row =>
    have hc := RowStep.content (hr ▸ hs)
    exact .inl ⟨row, (MailDb.row?_eq_some_iff.mp hr).left, Option.some.inj hc⟩

-- After an answer `inserted` or `existing` the message is in the mailbox.
theorem mem_of_enqueue {k : Nat} {env : MailEnvelope} {now : DateTime}
    (h : s.perform boxes (.enqueue k env now) = .ok (s', res))
    (hs : res.status = .inserted ∨ res.status = .existing) :
    ∃ row ∈ s'.db, row.messageId = env.messageId := by
  have ⟨⟨db, res⟩, ho, hd⟩ := Except.map_eq_ok_iff.mp h
  cases hd
  unfold PersistentMailbox.enqueue at ho
  split at ho
  case isTrue => cases ho; cases hs <;> contradiction
  split at ho
  case isTrue => cases ho
  split at ho
  case h_1 row hr =>
    cases ho
    have ⟨hm, hi⟩ := MailDb.row?_eq_some_iff.mp hr
    exact ⟨row, hm, hi⟩
  case h_2 =>
    split at ho
    case isTrue => cases ho; cases hs <;> contradiction
    dsimp only at ho
    split at ho
    case h_1        => cases ho
    case h_2 insert => cases ho; exact ⟨_, (Table.mem_insert? insert).mpr (.inr rfl), rfl⟩

end Mailboxes
end Content
end Mail
