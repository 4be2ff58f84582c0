import BridleModel.Runtime.InputRelay

open Python

namespace RuntimeInput

open Mail (AgentAddress MailEnvelope MailRow Mailboxes PersistentMailbox ResultStatus)

variable {boxes : String → Nat → PersistentMailbox} {s s' : Store} {d d' : Delivery} {m : Message} {row row' : MailRow}
variable {p : String} {pass : Pass} {relay relay' : Relay} {db : AppDb}

-- A delivery without what the relays change
def Delivery.fixed (d : Delivery) : Delivery :=
  { d with status := .pending, attempt := 0 }

-- The row is the message that tells the agent what the user has said.
structure Carries (d : Delivery) (m : Message) (row : MailRow) : Prop where
  messageId   : row.messageId = d.messageId
  messageType : row.messageType = RuntimeInput.messageType
  source      : row.sourceAddress = (⟨d.projectId, "session-gateway", 1⟩ : AgentAddress).toUri
  target      : row.targetAddress = d.target.toUri
  payload     : row.payloadJson = (Json.obj (d.payload m)).dumps

theorem Carries.content (h : Carries d m row) (hc : row'.content = row.content) : Carries d m row' where
  messageId   := (congrArg (·.messageId) hc).trans h.messageId
  messageType := (congrArg (·.messageType) hc).trans h.messageType
  source      := (congrArg (·.sourceAddress) hc).trans h.source
  target      := (congrArg (·.targetAddress) hc).trans h.target
  payload     := (congrArg (·.payloadJson) hc).trans h.payload

theorem Carries.fixed (h : Carries d m row) (hd : d'.fixed = d.fixed) : Carries d' m row := by
  have hm : d'.messageId = d.messageId := (congrArg Delivery.messageId hd :)
  have hp : d'.projectId = d.projectId := (congrArg Delivery.projectId hd :)
  have ht : d'.target = d.target := (congrArg Delivery.target hd :)
  have hj : d'.payload m = d.payload m := (congrArg (Delivery.payload · m) hd :)
  exact
    {
      messageId   := hm ▸ h.messageId
      messageType := h.messageType
      source      := hp ▸ h.source
      target      := ht ▸ h.target
      payload     := hj ▸ h.payload
    }

theorem carries_inserted {sequenceNo : Nat} {now : DateTime} :
    Carries d m (.inserted (d.envelope m) sequenceNo now) :=
  ⟨rfl, rfl, rfl, rfl, rfl⟩

namespace Store

-- What a delivery is about, with a message of its own
structure Origin (s : Store) (d : Delivery) (m : Message) : Prop where
  mem     : m ∈ s.db.messages
  id      : m.id = d.sessionMessageId
  session : m.sessionId = d.sessionId
  role    : m.role = "user"

def Sent (s : Store) (d : Delivery) : Prop :=
  ∃ row ∈ (s.mail d.projectId).db, row.messageId = d.messageId

-- A row of the mailbox that is, or is taken for, an input
def Claims (s : Store) (p : String) (row : MailRow) : Prop :=
  row.messageType = messageType ∨ ∃ d ∈ s.db.deliveries, d.projectId = p ∧ d.messageId = row.messageId

structure Valid (s : Store) : Prop where
  origin : ∀ d ∈ s.db.deliveries, ∃ m, s.Origin d m
  sent   : ∀ d ∈ s.db.deliveries, d.status = .delivered → s.Sent d
  mail   : ∀ p, ∀ row ∈ (s.mail p).db, s.Claims p row →
    ∃ d ∈ s.db.deliveries, ∃ m, d.projectId = p ∧ s.Origin d m ∧ Carries d m row ∧ 1 ≤ d.attempt

-- What everybody guarantees about a change.
structure Guarantee (s s' : Store) : Prop where
  valid      : s'.Valid
  deliveries : ∀ d ∈ s.db.deliveries, ∃ d' ∈ s'.db.deliveries, d'.fixed = d.fixed ∧
    (d.status = .delivered → d'.status = .delivered) ∧ (1 ≤ d.attempt → 1 ≤ d'.attempt)
  messages   : ∀ m ∈ s.db.messages, m ∈ s'.db.messages
  mail       : ∀ p, ∀ row ∈ (s.mail p).db, ∃ row' ∈ (s'.mail p).db, row'.content = row.content

-- The delivery that a relay has read is there.
def Recorded (s : Store) (d : Delivery) : Prop :=
  ∃ d' ∈ s.db.deliveries, d'.fixed = d.fixed

def Attempted (s : Store) (d : Delivery) : Prop :=
  ∃ d' ∈ s.db.deliveries, d'.fixed = d.fixed ∧ 1 ≤ d'.attempt

-- Every delivery of a call is still to do, or has been delivered, or its failure has been recorded.
structure Covered (s : Store) (pass : Pass) (current : List String) : Prop where
  known   : ∀ id ∈ pass.rest, ∃ d ∈ s.db.deliveries, d.id = id
  listed  : ∀ id ∈ pass.listed, id ∈ current ∨ id ∈ pass.rest ∨
    (∃ d ∈ s.db.deliveries, d.id = id ∧ d.status = .delivered) ∨ ∃ code, (id, code) ∈ pass.retries
  retries : ∀ id code, (id, code) ∈ pass.retries → code ≠ .messageMissing

def At (s : Store) : Relay → Prop
  | .idle               => True
  | .passing pass       => s.Covered pass []
  | .found pass d       => s.Covered pass [d.id] ∧ s.Recorded d
  | .loaded pass d m    => s.Covered pass [d.id] ∧ s.Recorded d ∧ s.Origin d m
  | .attempted pass d m => s.Covered pass [d.id] ∧ s.Attempted d ∧ s.Origin d m
  | .enqueued pass d    => s.Covered pass [d.id] ∧ s.Recorded d ∧ s.Sent d

namespace Guarantee

theorem refl (h : s.Valid) : s.Guarantee s where
  valid            := h
  deliveries d h   := ⟨d, h, rfl, id, id⟩
  messages _ h     := h
  mail _ row h     := ⟨row, h, rfl⟩

theorem origin (g : s.Guarantee s') (h : s.Origin d m) : s'.Origin d m :=
  { h with mem := g.messages m h.mem }

theorem sent (g : s.Guarantee s') (h : s.Sent d) : s'.Sent d := by
  have ⟨row, hr, hm⟩ := h
  have ⟨row', hr', hc⟩ := g.mail _ row hr
  exact ⟨row', hr', (congrArg (·.messageId) hc).trans hm⟩

theorem recorded (g : s.Guarantee s') (h : s.Recorded d) : s'.Recorded d := by
  have ⟨d₁, hd, hf⟩ := h
  have ⟨d₂, hd', hf', _⟩ := g.deliveries _ hd
  exact ⟨d₂, hd', hf'.trans hf⟩

theorem attempted (g : s.Guarantee s') (h : s.Attempted d) : s'.Attempted d := by
  have ⟨d₁, hd, hf, ha⟩ := h
  have ⟨d₂, hd', hf', _, ha'⟩ := g.deliveries _ hd
  exact ⟨d₂, hd', hf'.trans hf, ha' ha⟩

theorem covered {current : List String} (g : s.Guarantee s') (h : s.Covered pass current) :
    s'.Covered pass current where
  known id hid := by
    have ⟨d, hd, hi⟩ := h.known id hid
    have ⟨d', hd', hf, _⟩ := g.deliveries _ hd
    exact ⟨d', hd', (congrArg Delivery.id hf :).trans hi⟩
  listed id hid := by
    refine (h.listed id hid).imp_right (Or.imp_right (Or.imp_left ?_))
    intro ⟨d, hd, hi, hs⟩
    have ⟨d', hd', hf, hs', _⟩ := g.deliveries _ hd
    exact ⟨d', hd', (congrArg Delivery.id hf :).trans hi, hs' hs⟩
  retries := h.retries

theorem position (g : s.Guarantee s') (h : s.At relay) : s'.At relay := by
  cases relay with
  | idle      => trivial
  | passing   => exact g.covered h
  | found     => exact ⟨g.covered h.left, g.recorded h.right⟩
  | loaded    => exact ⟨g.covered h.left, g.recorded h.right.left, g.origin h.right.right⟩
  | attempted => exact ⟨g.covered h.left, g.attempted h.right.left, g.origin h.right.right⟩
  | enqueued  => exact ⟨g.covered h.left, g.recorded h.right.left, g.sent h.right.right⟩

end Guarantee

theorem Recorded.origin (hv : s.Valid) (h : s.Recorded d) : ∃ m, s.Origin d m := by
  have ⟨d', hd, hf⟩ := h
  have ⟨m, hm⟩ := hv.origin _ hd
  have hi : d'.sessionMessageId = d.sessionMessageId := (congrArg Delivery.sessionMessageId hf :)
  have hs : d'.sessionId = d.sessionId := (congrArg Delivery.sessionId hf :)
  exact ⟨m, { hm with id := hm.id.trans hi, session := hm.session.trans hs }⟩

section Changes

variable {f : Delivery → Delivery} {k : ∀ d, (f d).keys = d.keys} {deliveryId : String} {attempt : Mail.Attempt}

theorem Valid.grow (h : s.Valid) (hm : ∀ m ∈ s.db.messages, m ∈ db.messages)
    (hd : db.deliveries = s.db.deliveries) : s.Guarantee { s with db } := by
  have horigin : ∀ d m, s.Origin d m → Store.Origin { s with db } d m :=
    fun d m ho => { ho with mem := hm m ho.mem }
  refine ⟨⟨?_, ?_, ?_⟩, ?_, hm, fun _ row hr => ⟨row, hr, rfl⟩⟩
  · intro d hd'
    have ⟨m, ho⟩ := h.origin d (hd ▸ hd')
    exact ⟨m, horigin d m ho⟩
  · exact fun d hd' => h.sent d (hd ▸ hd')
  · intro p row hr hc
    have hc : s.Claims p row := by
      rw [Claims, hd] at hc
      exact hc
    have ⟨d, hd', m, hp, ho, hrest⟩ := h.mail p row hr hc
    exact ⟨d, hd ▸ hd', m, hp, horigin d m ho, hrest⟩
  · exact fun d hd' => ⟨d, hd ▸ hd', rfl, id, id⟩

theorem mem_updateDelivery : d' ∈ (db.updateDelivery deliveryId f k).deliveries ↔
    ∃ d ∈ db.deliveries, (if d.id = deliveryId then f d else d) = d' := by
  rw [AppDb.updateDelivery, Table.mem_modify]
  simp only [decide_eq_true_eq]

theorem mem_setAttempt {attempt : Nat} (hd : d ∈ db.deliveries) (hi : d.id = deliveryId) :
    { d with attempt } ∈ (db.setAttempt deliveryId attempt).deliveries :=
  mem_updateDelivery (f := fun d => { d with attempt }) (k := fun _ => rfl) |>.mpr ⟨d, hd, if_pos hi⟩

theorem mem_setDelivered (hd : d ∈ db.deliveries) (hi : d.id = deliveryId) :
    { d with status := .delivered } ∈ (db.setDelivered deliveryId).deliveries :=
  mem_updateDelivery (f := fun d => { d with status := .delivered }) (k := fun _ => rfl) |>.mpr ⟨d, hd, if_pos hi⟩

-- What a relay writes about a delivery
theorem Valid.update (h : s.Valid) (hf : ∀ d, (f d).fixed = d.fixed)
    (hs : ∀ d ∈ s.db.deliveries, d.id = deliveryId → (f d).status = .delivered → d.status = .delivered ∨ s.Sent d)
    (hk : ∀ d, d.status = .delivered → (f d).status = .delivered) (ha : ∀ d, 1 ≤ d.attempt → 1 ≤ (f d).attempt) :
    s.Guarantee { s with db := s.db.updateDelivery deliveryId f k } := by
  have horigin : ∀ d m, s.Origin d m → Store.Origin { s with db := s.db.updateDelivery deliveryId f k } d m :=
    fun d m ho => { ho with mem := ho.mem }
  have hdeliveries : ∀ d ∈ s.db.deliveries, ∃ d' ∈ (s.db.updateDelivery deliveryId f k).deliveries,
      d'.fixed = d.fixed ∧ (d.status = .delivered → d'.status = .delivered) ∧ (1 ≤ d.attempt → 1 ≤ d'.attempt) := by
    intro d hd
    refine ⟨_, mem_updateDelivery.mpr ⟨d, hd, rfl⟩, ?_⟩
    split
    case isTrue  => exact ⟨hf d, hk d, ha d⟩
    case isFalse => exact ⟨rfl, id, id⟩
  have hback : ∀ d' ∈ (s.db.updateDelivery deliveryId f k).deliveries, ∃ d ∈ s.db.deliveries, d'.fixed = d.fixed ∧
      (d'.status = .delivered → d.status = .delivered ∨ s.Sent d) := by
    intro d' hd'
    have ⟨d, hd, he⟩ := mem_updateDelivery.mp hd'
    subst he
    refine ⟨d, hd, ?_⟩
    split
    case isTrue hi => exact ⟨hf d, hs d hd hi⟩
    case isFalse   => exact ⟨rfl, .inl⟩
  refine ⟨⟨?_, ?_, ?_⟩, hdeliveries, fun _ => id, fun _ row hr => ⟨row, hr, rfl⟩⟩
  · intro d' hd'
    have ⟨d, hd, he, _⟩ := hback d' hd'
    have ⟨m, ho⟩ := Recorded.origin h ⟨d, hd, he.symm⟩
    exact ⟨m, horigin d' m ho⟩
  · intro d' hd' hs'
    have ⟨d, hd, he, hsent⟩ := hback d' hd'
    have ⟨row, hr, hi⟩ : s.Sent d := (hsent hs').elim (h.sent d hd) id
    have hp : d'.projectId = d.projectId := (congrArg Delivery.projectId he :)
    have hm : d'.messageId = d.messageId := (congrArg Delivery.messageId he :)
    exact ⟨row, hp ▸ hr, hm ▸ hi⟩
  · intro p row hr hc
    have hc : s.Claims p row := by
      refine hc.imp_right ?_
      intro ⟨d', hd', hp, hm⟩
      have ⟨d, hd, he, _⟩ := hback d' hd'
      exact ⟨d, hd, (congrArg Delivery.projectId he :).symm.trans hp, (congrArg Delivery.messageId he :).symm.trans hm⟩
    have ⟨d, hd, m, hp, ho, hcarries, hattempt⟩ := h.mail p row hr hc
    have ⟨d', hd', he, _, ha'⟩ := hdeliveries d hd
    have hi : d'.sessionMessageId = d.sessionMessageId := (congrArg Delivery.sessionMessageId he :)
    have hs : d'.sessionId = d.sessionId := (congrArg Delivery.sessionId he :)
    have ho' : s.Origin d' m := { ho with id := ho.id.trans hi.symm, session := ho.session.trans hs.symm }
    exact ⟨d', hd', m, (congrArg Delivery.projectId he :).trans hp, horigin d' m ho', hcarries.fixed he, ha' hattempt⟩

theorem Valid.input {sessionId content messageId : String} {target : AgentAddress} {available : Bool} {now : DateTime}
    (h : s.Valid) (hnew : (s.mail target.projectId).db.row? messageId = none)
    (hc : s.db.createRuntimeInput sessionId content target available messageId deliveryId now = .ok db) :
    s.Guarantee { s with db } := by
  unfold AppDb.createRuntimeInput at hc
  split at hc
  case h_1             => cases hc
  case h_2 session _ =>
    split at hc
    case isTrue => cases hc
    split at hc
    case isTrue => cases hc
    case isFalse htarget =>
      have htarget : target.projectId = session.projectId := not_not.mp htarget
      dsimp only at hc
      split at hc
      case h_2 => cases hc
      case h_1 messages deliveries hmessages hdeliveries =>
        cases hc
        have hgrow : ∀ m ∈ s.db.messages, m ∈ messages := fun m hm => (Table.mem_insert? hmessages).mpr (.inl hm)
        have horigin : ∀ d m, s.Origin d m → Store.Origin { s with db := { s.db with messages, deliveries } } d m :=
          fun d m ho => { ho with mem := hgrow m ho.mem }
        refine ⟨⟨?_, ?_, ?_⟩, ?_, hgrow, fun _ row hr => ⟨row, hr, rfl⟩⟩
        · intro d hd
          cases (Table.mem_insert? hdeliveries).mp hd with
          | inl hd =>
            have ⟨m, ho⟩ := h.origin d hd
            exact ⟨m, horigin d m ho⟩
          | inr hd =>
            subst hd
            exact ⟨_, (Table.mem_insert? hmessages).mpr (.inr rfl), rfl, rfl, rfl⟩
        · intro d hd hs
          cases (Table.mem_insert? hdeliveries).mp hd with
          | inl hd => exact h.sent d hd hs
          | inr hd =>
            subst hd
            cases hs
        · intro p row hr hclaims
          have hclaims : s.Claims p row := by
            cases hclaims with
            | inl ht => exact .inl ht
            | inr hd =>
              have ⟨d, hd, hp, hm⟩ := hd
              cases (Table.mem_insert? hdeliveries).mp hd with
              | inl hd => exact .inr ⟨d, hd, hp, hm⟩
              | inr hd =>
                -- the drawn id is new to the mailbox
                subst hd hp
                rw [htarget, show messageId = row.messageId from hm, Mail.MailDb.row?_of_mem hr] at hnew
                cases hnew
          have ⟨d, hd, m, hp, ho, hrest⟩ := h.mail p row hr hclaims
          exact ⟨d, (Table.mem_insert? hdeliveries).mpr (.inl hd), m, hp, horigin d m ho, hrest⟩
        · exact fun d hd => ⟨d, (Table.mem_insert? hdeliveries).mpr (.inl hd), rfl, id, id⟩

end Changes

section Mailboxes

variable {mail : Mailboxes} {a : Mail.Action} {attempt : Mail.Attempt} {mailboxes : Nat → PersistentMailbox}

theorem afterAttempt_eq : mail.afterAttempt mailboxes attempt = mail ∨
    mail.afterAttempt mailboxes attempt = mail.after mailboxes attempt.action := by
  cases Mailboxes.attempt_cases mailboxes mail attempt with
  | inl h => exact .inl h.left
  | inr h =>
    have ⟨mail', res, hp, ha, _⟩ := h
    exact .inr (ha.trans (Mailboxes.after_of_ok hp).symm)

-- A call on the mailbox of a project enqueues nothing that is, or is taken for, an input, unless it is one.
theorem Valid.mailed (h : s.Valid) (ha : ∀ k env seq now, a = .enqueue k env now →
      s.Claims p (.inserted env seq now) →
      ∃ d ∈ s.db.deliveries, ∃ m, d.projectId = p ∧ s.Origin d m ∧ Carries d m (.inserted env seq now) ∧ 1 ≤ d.attempt) :
    s.Guarantee { s with mail := Function.update s.mail p ((s.mail p).after (boxes p) a) } := by
  have hkept : ∀ q, ∀ row ∈ (s.mail q).db,
      ∃ row' ∈ (Function.update s.mail p ((s.mail p).after (boxes p) a) q).db, row'.content = row.content := by
    intro q row hr
    rw [Function.update_apply]
    split
    case isTrue hq => exact hq ▸ Mailboxes.content_after (boxes p) a (hq ▸ hr)
    case isFalse   => exact ⟨row, hr, rfl⟩
  refine ⟨⟨?_, ?_, ?_⟩, fun d hd => ⟨d, hd, rfl, id, id⟩, fun _ => id, hkept⟩
  · intro d hd
    have ⟨m, ho⟩ := h.origin d hd
    exact ⟨m, ho.mem, ho.id, ho.session, ho.role⟩
  · intro d hd hs
    have ⟨row, hr, hm⟩ := h.sent d hd hs
    have ⟨row', hr', hc⟩ := hkept _ row hr
    exact ⟨row', hr', (congrArg (·.messageId) hc).trans hm⟩
  · intro q row' hr' hclaims
    dsimp only at hr'
    have hsame : ∀ row ∈ (s.mail q).db, row'.content = row.content → ∃ d ∈ s.db.deliveries, ∃ m, d.projectId = q ∧
        s.Origin d m ∧ Carries d m row' ∧ 1 ≤ d.attempt := by
      intro row hr hc
      have hm : row'.messageId = row.messageId := congrArg (·.messageId) hc
      have ht : row'.messageType = row.messageType := congrArg (·.messageType) hc
      have hclaims : s.Claims q row := by
        rw [Claims, ← ht, ← hm]
        exact hclaims
      have ⟨d, hd, m, hp, ho, hcarries, hattempt⟩ := h.mail q row hr hclaims
      exact ⟨d, hd, m, hp, ho, hcarries.content hc, hattempt⟩
    have hfound : ∃ d ∈ s.db.deliveries, ∃ m, d.projectId = q ∧ s.Origin d m ∧ Carries d m row' ∧ 1 ≤ d.attempt := by
      rw [Function.update_apply] at hr'
      split at hr'
      case isFalse   => exact hsame row' hr' rfl
      case isTrue hq =>
        subst hq
        cases Mailboxes.origin_after hr' with
        | inl old =>
          have ⟨row, hr, hc⟩ := old
          exact hsame row hr hc
        | inr new =>
          have ⟨k, env, seq, now, he, hr⟩ := new
          subst hr
          exact ha k env seq now he hclaims
    have ⟨d, hd, m, hp, ho, hrest⟩ := hfound
    exact ⟨d, hd, m, hp, ⟨ho.mem, ho.id, ho.session, ho.role⟩, hrest⟩

end Mailboxes
theorem perform_guarantee {call : Call} (h : s.Valid) (hs : perform boxes s call = some s') : s.Guarantee s' := by
  unfold perform at hs
  have ⟨hpermitted, hs⟩ := Option.ite_none_right_eq_some.mp hs
  cases call with
  | session session           =>
    cases hs
    cases hc : s.db.createSession session with
    | error => exact .refl h
    | ok db =>
      unfold AppDb.createSession at hc
      split at hc
      case h_1 => cases hc; exact h.grow (fun _ => id) rfl
      case h_2 => cases hc
  | message message available =>
    cases hs
    cases hc : s.db.createMessage message available with
    | error => exact .refl h
    | ok db =>
      unfold AppDb.createMessage at hc
      split at hc
      case h_1 => cases hc
      split at hc
      case isTrue => cases hc
      split at hc
      case h_1 messages hm => cases hc; exact h.grow (fun m hmem => (Table.mem_insert? hm).mpr (.inl hmem)) rfl
      case h_2             => cases hc
  | input sessionId content target available messageId deliveryId now =>
    cases hs
    cases hc : s.db.createRuntimeInput sessionId content target available messageId deliveryId now with
    | error => exact .refl h
    | ok db => exact h.input (Option.isNone_iff_eq_none.mp hpermitted) hc
  | reply delivery messageId assistantId content =>
    cases hs
    cases hc : s.db.persistReply delivery messageId assistantId content with
    | error  => exact .refl h
    | ok out =>
      unfold AppDb.persistReply at hc
      dsimp only at hc
      split at hc
      case h_1 messages results hm _ => cases hc; exact h.grow (fun m hmem => (Table.mem_insert? hm).mpr (.inl hmem)) rfl
      case h_2                       => cases hc
  | mail projectId attempt    =>
    cases hs
    have hkeep := @afterAttempt_eq (s.mail projectId) attempt (boxes projectId)
    cases hkeep with
    | inl he =>
      rw [he, Function.update_eq_self]
      exact .refl h
    | inr he =>
      rw [he]
      refine h.mailed ?_
      intro k env seq now ha hclaims
      obtain ⟨action, verdict⟩ := attempt
      subst ha
      have ⟨htype, hfree⟩ := of_decide_eq_true hpermitted
      cases hclaims with
      | inl ht => exact absurd ht htype
      | inr hd =>
        have ⟨d, hd, _, hm⟩ := hd
        have hnone := Table.lookup_eq_none_iff.mp (Option.isNone_iff_eq_none.mp hfree) d hd
        exact absurd (by simp [Delivery.keys, hm]; rfl) hnone

section Advance

variable {current : List String} {id : String} {code : RetryCode} {box : Nat} {now : DateTime} {verdict : Mail.Verdict}

theorem Covered.retry (h : s.Covered pass [d.id]) (hc : code ≠ .messageMissing) : s.Covered (pass.retry d code) [] where
  known   := h.known
  listed  := by
    intro id hid
    refine .inr ?_
    cases h.listed id hid with
    | inl he =>
      rw [List.mem_singleton] at he
      exact .inr (.inr ⟨code, he ▸ List.mem_append_right _ List.mem_cons_self⟩)
    | inr he =>
      refine he.imp_right (Or.imp_right ?_)
      exact fun ⟨c, hm⟩ => ⟨c, List.mem_append_left _ hm⟩
  retries := by
    intro id c hm
    cases List.mem_append.mp hm with
    | inl hm => exact h.retries id c hm
    | inr hm =>
      cases List.mem_singleton.mp hm
      exact hc

-- The next delivery of a call
theorem Covered.next {listed rest : List String} {delivered : Nat} {retries : List (String × RetryCode)}
    (h : s.Covered ⟨listed, id :: rest, delivered, retries⟩ []) : s.Covered ⟨listed, rest, delivered, retries⟩ [id] where
  known   := fun id' hid => h.known id' (List.mem_cons_of_mem _ hid)
  listed  := by
    intro id' hid
    cases h.listed id' hid with
    | inl he => cases he
    | inr he =>
      cases he with
      | inl he =>
        cases List.mem_cons.mp he with
        | inl he => exact .inl (he ▸ List.mem_cons_self)
        | inr he => exact .inr (.inl he)
      | inr he => exact .inr (.inr he)
  retries := h.retries

theorem Covered.skip (h : s.Covered pass [id]) (hd : ∃ d ∈ s.db.deliveries, d.id = id ∧ d.status = .delivered) :
    s.Covered pass [] where
  known   := h.known
  listed  := by
    intro id' hid
    refine .inr ?_
    cases h.listed id' hid with
    | inl he =>
      rw [List.mem_singleton] at he
      exact .inr (.inl (he ▸ hd))
    | inr he => exact he
  retries := h.retries

theorem mem_pendingIds {project : Option String} (h : id ∈ db.pendingIds project) : ∃ d ∈ db.deliveries, d.id = id := by
  have ⟨d, hd, hi⟩ := List.mem_map.mp h
  exact ⟨d, List.mem_of_mem_filter (SortBy.mem_sortBy.mp hd), hi⟩

theorem perform_of_attempt {mail mail' : Mailboxes} {mailboxes : Nat → PersistentMailbox} {attempt : Mail.Attempt}
    {res : Mail.MailboxResult} (h : mail.attempt mailboxes attempt = .ok (mail', .result res)) :
    mail.perform mailboxes attempt.action = .ok (mail', res) := by
  unfold Mailboxes.attempt at h
  split at h
  case h_1 => cases h
  case h_2 => cases h
  case h_3 =>
    have ⟨out, ho, he⟩ := Except.map_eq_ok_iff.mp h
    cases he
    exact ho

theorem enqueue_guarantee (h : s.Valid) (hc : s.Covered pass [d.id]) (ha : s.Attempted d) (ho : s.Origin d m)
    (he : enqueue boxes s pass d m box now verdict = (s', relay)) : s.Guarantee s' ∧ s'.At relay := by
  unfold enqueue at he
  dsimp only at he
  split at he
  case h_1 mail res hattempt =>
    have hp := perform_of_attempt hattempt
    have ⟨d', hd', hfixed, hone⟩ := ha
    have g : s.Guarantee { s with mail := Function.update s.mail d.projectId mail } := by
      rw [← Mailboxes.after_of_ok hp]
      refine h.mailed ?_
      intro k env seq now ha _
      cases ha
      have hi : d'.sessionMessageId = d.sessionMessageId := (congrArg Delivery.sessionMessageId hfixed :)
      have hs : d'.sessionId = d.sessionId := (congrArg Delivery.sessionId hfixed :)
      have ho' : s.Origin d' m := { ho with id := ho.id.trans hi.symm, session := ho.session.trans hs.symm }
      exact ⟨d', hd', m, (congrArg Delivery.projectId hfixed :), ho', carries_inserted.fixed hfixed, hone⟩
    split at he
    case isTrue hs  =>
      cases he
      refine ⟨g, g.covered hc, g.recorded ⟨d', hd', hfixed⟩, ?_⟩
      have ⟨row, hr, hm⟩ := Mailboxes.mem_of_enqueue hp hs
      refine ⟨row, ?_, hm⟩
      dsimp only
      rw [Function.update_self]
      exact hr
    case isFalse hs =>
      cases he
      exact ⟨g, g.covered (hc.retry nofun)⟩
  case h_2 =>
    cases he
    exact ⟨.refl h, hc.retry nofun⟩
  case h_3 =>
    cases he
    exact ⟨.refl h, hc.retry nofun⟩

theorem advance_guarantee {move : Move} (h : s.Valid) (hp : s.At relay)
    (hs : advance boxes s relay move = some (s', relay')) : s.Guarantee s' ∧ s'.At relay' := by
  unfold advance at hs
  split at hs
  case h_1 =>
    cases hs
    exact ⟨.refl h, trivial⟩
  case h_2 =>
    cases hs
    exact ⟨.refl h, fun id hid => mem_pendingIds hid, fun id hid => .inr (.inl hid), fun _ _ hm => nomatch hm⟩
  case h_3 listed id rest delivered retries =>
    have hnext := Covered.next hp
    have ⟨d, hd, hi⟩ := hp.known id List.mem_cons_self
    have hlookup : s.db.deliveries.lookup (.id id) = some d :=
      Table.lookup_eq_some_iff.mpr ⟨hd, hi ▸ List.mem_cons_self⟩
    dsimp only at hs
    rw [hlookup] at hs
    dsimp only at hs
    split at hs
    case isTrue          =>
      cases hs
      exact ⟨.refl h, hi ▸ hnext, d, hd, rfl⟩
    case isFalse hstatus =>
      cases hs
      have hdelivered : d.status = .delivered := by
        cases hds : d.status with
        | pending   => exact absurd hds hstatus
        | delivered => rfl
      exact ⟨.refl h, hnext.skip ⟨d, hd, hi, hdelivered⟩⟩
  case h_4 pass d =>
    have ⟨hc, hr⟩ := hp
    have ⟨m, ho⟩ := hr.origin h
    split at hs
    case h_1 hl     =>
      -- a message is never deleted
      exact absurd (ho.id ▸ List.mem_cons_self) (Table.lookup_eq_none_iff.mp hl m ho.mem)
    case h_2 m' hl =>
      cases hs
      have hlookup : s.db.messages.lookup d.sessionMessageId = some m :=
        Table.lookup_eq_some_iff.mpr ⟨ho.mem, ho.id ▸ List.mem_cons_self⟩
      cases hl.symm.trans hlookup
      exact ⟨.refl h, hc, hr, ho⟩
  case h_5 pass d m =>
    have ⟨hc, hr, ho⟩ := hp
    cases hs
    have g : s.Guarantee { s with db := s.db.setAttempt d.id (d.attempt + 1) } :=
      h.update (fun _ => rfl) (fun _ _ _ => .inl) (fun _ => id) (fun _ _ => Nat.le_add_left 1 d.attempt)
    refine ⟨g, g.covered hc, ?_, g.origin ho⟩
    have ⟨d', hd', hf⟩ := hr
    exact ⟨{ d' with attempt := d.attempt + 1 }, mem_setAttempt hd' (congrArg Delivery.id hf :), hf, Nat.le_add_left 1 d.attempt⟩
  case h_6 => exact enqueue_guarantee h hp.left hp.right.left hp.right.right (Option.some.inj hs)
  case h_7 pass d =>
    have ⟨hc, hr, hsent⟩ := hp
    cases hs
    have ⟨d', hd', hf⟩ := hr
    have hi : d'.id = d.id := (congrArg Delivery.id hf :)
    have g : s.Guarantee { s with db := s.db.setDelivered d.id } := by
      refine h.update (fun _ => rfl) ?_ (fun _ _ => rfl) (fun _ => id)
      intro e he hei _
      have hsame : e = d' := Table.eq_of_mem_keys he hd' List.mem_cons_self (by simp [Delivery.keys, hei, hi])
      have hpid : e.projectId = d.projectId := hsame ▸ (congrArg Delivery.projectId hf :)
      have hmid : e.messageId = d.messageId := hsame ▸ (congrArg Delivery.messageId hf :)
      have ⟨row, hr, hm⟩ := hsent
      exact .inr ⟨row, hpid ▸ hr, hmid ▸ hm⟩
    have hcovered : s.Covered pass.deliver [d.id] := ⟨hc.known, hc.listed, hc.retries⟩
    exact ⟨g, (g.covered hcovered).skip ⟨{ d' with status := .delivered }, mem_setDelivered hd' hi, hi, rfl⟩⟩
  case h_8 => cases hs

end Advance

theorem relay_invariant : (processes boxes).Invariant Valid At Guarantee where
  init hs := by
    subst hs
    refine ⟨⟨?_, ?_, ?_⟩, trivial⟩
    · exact fun d hd => absurd hd Table.not_mem_empty
    · exact fun d hd => absurd hd Table.not_mem_empty
    · exact fun p row hr => absurd hr Table.not_mem_empty
  environment h hs := perform_guarantee h hs
  advance h hp hs  := advance_guarantee h hp hs
  store _ g        := g.valid
  stable _ g hp    := g.position hp

end Store

-- What a consumer reads off the payload
def Reads (row : MailRow) (d : Delivery) (m : Message) : Prop :=
  Json.scan row.payloadJson =
    some (.obj [
      ("content", .str m.content), ("role", .str m.role), ("session_id", .str d.sessionId),
      ("session_message_id", .str m.id)
    ])

theorem Carries.reads (h : Carries d m row) (hi : m.id = d.sessionMessageId) : Reads row d m := by
  rw [Reads, h.payload, Json.scan_dumps, hi, Json.canonical_obj]
  simp [Delivery.payload, Json.byKey, List.insertionSort, List.orderedInsert, Json.canonical]

section Sample

def sampleBoxes : String → Nat → PersistentMailbox :=
  fun _ => Mail.Sample.box

-- The process stops after the message has been enqueued, and another call finds it there.
def sampleLabels : List (Processes.Label Call Move) :=
  [
    .environment (.session ⟨"s", "p"⟩),
    .environment (.input "s" "hello" ⟨"p", "parent", 1⟩ true "m" "d" (Mail.Sample.clock 0)),
    .process 0 (.list none), .process 0 .read, .process 0 .read, .process 0 .commit,
    .process 0 (.enqueue 0 (Mail.Sample.clock 1) .commits), .process 0 .fail,
    .process 1 (.list (some "p")), .process 1 .read, .process 1 .read, .process 1 .commit,
    .process 1 (.enqueue 0 (Mail.Sample.clock 2) .commits), .process 1 .deliver
  ]

def returned (c : Processes.Configuration Store Relay) : Option (List String × List String × Nat) :=
  match c.process 1 with
  | .passing pass => some (pass.listed, pass.rest, pass.delivered)
  | _             => none

end Sample
end RuntimeInput
