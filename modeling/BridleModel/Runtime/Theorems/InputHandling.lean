import BridleModel.Mailbox.System
import BridleModel.Runtime.InputHandling

namespace RuntimeInput.Handling

open Python
open Mail (AgentAddress)

-- The call is inside the lock of its message.
def Position.entered : Position → Bool
  | .locked | .queued .. | .admitted .. | .calling .. | .replied .. | .checked .. => true
  | _                                                                             => false

-- The session whose lock the call is inside
def Position.session? : Position → Option String
  | .admitted _ sessionId | .calling _ sessionId | .replied sessionId _ | .checked sessionId _ _ => some sessionId
  | _                                                                                             => none

-- The provider has been called, and what it answers is not recorded.
def Position.asking : Position → Bool
  | .calling .. | .replied .. | .checked .. => true
  | _                                       => false

theorem entered_of_asking {position : Position} (h : position.asking) : position.entered := by
  cases position with
  | calling | replied | checked => rfl
  | _                           => cases h

section Database

-- What nobody takes back
structure Extends (db db' : AppDb) : Prop where
  messages   : ∀ m ∈ db.messages, m ∈ db'.messages
  deliveries : ∀ d ∈ db.deliveries, ∃ d' ∈ db'.deliveries, d'.messageId = d.messageId ∧ d'.sessionId = d.sessionId
  results    : ∀ r ∈ db.results, r ∈ db'.results

-- A recorded reply answers one input, in the input's session.
structure Sound (db : AppDb) : Prop where
  reply    : ∀ r ∈ db.results, ∃ m ∈ db.messages, m.id = r.assistantMessageId ∧ m.role = "assistant" ∧
    ∃ d ∈ db.deliveries, d.messageId = r.messageId ∧ m.sessionId = d.sessionId
  distinct : ∀ r ∈ db.results, ∀ r' ∈ db.results, r.assistantMessageId = r'.assistantMessageId → r = r'

variable {db db' : AppDb} {messageId assistantId text : String} {reply : Message} {delivery : Delivery}

theorem Extends.refl : Extends db db :=
  ⟨fun _ => id, fun d hd => ⟨d, hd, rfl, rfl⟩, fun _ => id⟩

theorem reply?_eq_some_iff : db.reply? messageId = some reply ↔
    ∃ r ∈ db.results, r.messageId = messageId ∧ reply ∈ db.messages ∧ reply.id = r.assistantMessageId := by
  rw [AppDb.reply?, Option.bind_eq_some_iff]
  simp only [Table.lookup_eq_some_iff, List.mem_singleton]
  constructor
  case mp =>
    rintro ⟨r, ⟨hr, hm⟩, hreply, hi⟩
    exact ⟨r, hr, hm.symm, hreply, hi.symm⟩
  case mpr =>
    rintro ⟨r, hr, hm, hreply, hi⟩
    exact ⟨r, ⟨hr, hm.symm⟩, hreply, hi.symm⟩

theorem Extends.reply?_eq (h : Extends db db') (hr : db.reply? messageId = some reply) :
    db'.reply? messageId = some reply := by
  have ⟨r, hr, hm, hreply, hi⟩ := reply?_eq_some_iff.mp hr
  exact reply?_eq_some_iff.mpr ⟨r, h.results r hr, hm, h.messages _ hreply, hi⟩

theorem Sound.result_none (h : Sound db) (hr : db.reply? messageId = none) : db.results.lookup messageId = none := by
  cases hl : db.results.lookup messageId with
  | none   => rfl
  | some r =>
    have ⟨hr', hm⟩ := Table.lookup_eq_some_iff.mp hl
    have ⟨m, hmem, hi, _⟩ := h.reply r hr'
    have hsome := reply?_eq_some_iff.mpr ⟨r, hr', (List.mem_singleton.mp hm).symm, hmem, hi⟩
    cases hr.symm.trans hsome

theorem Sound.extend (h : Sound db) (he : Extends db db') (hr : db'.results = db.results) : Sound db' where
  reply    := by
    intro r hmem
    have ⟨m, hm, hi, hrole, d, hd, hdm, hs⟩ := h.reply r (hr ▸ hmem)
    have ⟨d', hd', hm', hs'⟩ := he.deliveries d hd
    exact ⟨m, he.messages m hm, hi, hrole, d', hd', hm'.trans hdm, hs.trans hs'.symm⟩
  distinct := fun r hmem r' hmem' => h.distinct r (hr ▸ hmem) r' (hr ▸ hmem')

-- The transaction of a reply
structure Persists (db : AppDb) (delivery : Delivery) (messageId : String) (db' : AppDb) (reply : Message) : Prop where
  extends' : Extends db db'
  results  : ∀ r, r ∈ db'.results ↔ r ∈ db.results ∨ r = ⟨messageId, reply.id⟩
  mem      : reply ∈ db'.messages
  fresh    : ∀ m ∈ db.messages, m.id ≠ reply.id
  role     : reply.role = "assistant"
  session  : reply.sessionId = delivery.sessionId

theorem persists (h : db.persistReply delivery messageId assistantId text = .ok (db', reply)) :
    Persists db delivery messageId db' reply := by
  unfold AppDb.persistReply at h
  dsimp only at h
  split at h
  case h_2 => cases h
  case h_1 messages results hm hr =>
    cases h
    exact
      {
        extends' := ⟨fun m hmem => (Table.mem_insert? hm).mpr (.inl hmem), fun d hd => ⟨d, hd, rfl, rfl⟩,
          fun r hmem => (Table.mem_insert? hr).mpr (.inl hmem)⟩
        results  := fun r => Table.mem_insert? hr
        mem      := (Table.mem_insert? hm).mpr (.inr rfl)
        fresh    := fun m hmem he => Table.insert?_fresh hm hmem List.mem_cons_self (he ▸ List.mem_cons_self)
        role     := rfl
        session  := rfl
      }

theorem Persists.sound (h : Persists db delivery messageId db' reply) (hs : Sound db)
    (hd : ∃ d ∈ db.deliveries, d.messageId = messageId ∧ d.sessionId = delivery.sessionId) : Sound db' where
  reply    := by
    intro r hmem
    cases (h.results r).mp hmem with
    | inl hr =>
      have ⟨m, hm, hi, hrole, d, hd, hdm, hsession⟩ := hs.reply r hr
      have ⟨d', hd', hm', hs'⟩ := h.extends'.deliveries d hd
      exact ⟨m, h.extends'.messages m hm, hi, hrole, d', hd', hm'.trans hdm, hsession.trans hs'.symm⟩
    | inr hr =>
      subst hr
      have ⟨d, hd, hm, hsession⟩ := hd
      have ⟨d', hd', hm', hs'⟩ := h.extends'.deliveries d hd
      exact ⟨reply, h.mem, rfl, h.role, d', hd', hm'.trans hm, h.session.trans (hs'.trans hsession).symm⟩
  distinct := by
    have hnew : ∀ r ∈ db.results, r.assistantMessageId ≠ reply.id := by
      intro r hr
      have ⟨m, hm, hi, _⟩ := hs.reply r hr
      exact hi ▸ h.fresh m hm
    intro r hmem r' hmem' he
    cases (h.results r).mp hmem with
    | inl hr =>
      cases (h.results r').mp hmem' with
      | inl hr' => exact hs.distinct r hr r' hr' he
      | inr hr' => exact absurd (he.trans (congrArg Result.assistantMessageId hr')) (hnew r hr)
    | inr hr =>
      cases (h.results r').mp hmem' with
      | inl hr' => exact absurd (he.symm.trans (congrArg Result.assistantMessageId hr)) (hnew r' hr')
      | inr hr' => exact hr.trans hr'.symm

theorem Persists.reply?_eq (h : Persists db delivery messageId db' reply) : db'.reply? messageId = some reply :=
  reply?_eq_some_iff.mpr ⟨_, (h.results _).mpr (.inr rfl), rfl, h.mem, rfl⟩

theorem update_kept {d : Delivery} {deliveryId : String} (f : Delivery → Delivery) (k : ∀ d, (f d).keys = d.keys)
    (hd : d ∈ db.deliveries) (hf : ∀ d, (f d).messageId = d.messageId ∧ (f d).sessionId = d.sessionId) :
    ∃ d' ∈ (db.updateDelivery deliveryId f k).deliveries, d'.messageId = d.messageId ∧ d'.sessionId = d.sessionId := by
  refine ⟨_, Table.modify_mem (h := Table.keep k) hd, ?_⟩
  split
  case isTrue  => exact hf d
  case isFalse => exact ⟨rfl, rfl⟩

theorem outside (o : Outside) : Extends db (o.perform db) ∧ (o.perform db).results = db.results := by
  cases o with
  | session row =>
    rw [Outside.perform]
    unfold AppDb.createSession
    split
    case h_1 => exact ⟨⟨fun _ => id, fun d hd => ⟨d, hd, rfl, rfl⟩, fun _ => id⟩, rfl⟩
    case h_2 => exact ⟨.refl, rfl⟩
  | message row available =>
    rw [Outside.perform]
    unfold AppDb.createMessage
    split
    case h_1 => exact ⟨.refl, rfl⟩
    split
    case isTrue => exact ⟨.refl, rfl⟩
    split
    case h_1 messages hm =>
      exact ⟨⟨fun m hmem => (Table.mem_insert? hm).mpr (.inl hmem), fun d hd => ⟨d, hd, rfl, rfl⟩, fun _ => id⟩, rfl⟩
    case h_2 => exact ⟨.refl, rfl⟩
  | input sessionId content target available messageId deliveryId now =>
    rw [Outside.perform]
    unfold AppDb.createRuntimeInput
    split
    case h_1 => exact ⟨.refl, rfl⟩
    split
    case isTrue => exact ⟨.refl, rfl⟩
    split
    case isTrue => exact ⟨.refl, rfl⟩
    dsimp only
    split
    case h_1 messages deliveries hm hd =>
      refine ⟨⟨fun m hmem => (Table.mem_insert? hm).mpr (.inl hmem), ?_, fun _ => id⟩, rfl⟩
      exact fun d hmem => ⟨d, (Table.mem_insert? hd).mpr (.inl hmem), rfl, rfl⟩
    case h_2 => exact ⟨.refl, rfl⟩
  | attempt deliveryId count =>
    exact ⟨⟨fun _ => id, fun d hd => update_kept (fun d => { d with attempt := count }) (fun _ => rfl) hd fun _ => ⟨rfl, rfl⟩, fun _ => id⟩, rfl⟩
  | delivered deliveryId =>
    exact ⟨⟨fun _ => id, fun d hd => update_kept (fun d => { d with status := .delivered }) (fun _ => rfl) hd fun _ => ⟨rfl, rfl⟩, fun _ => id⟩, rfl⟩

end Database
section Calls

variable {w w' : World} {id id' host : Nat} {call call' : Call} {position : Position} {key messageId : String}
variable {reply : Message} {locks : Nat → String → Option Nat}

-- All calls for the message are made in the process of this one.
def World.Alone (w : World) (call : Call) : Prop :=
  ∀ id' call', w.calls id' = some call' → call'.messageId = call.messageId → call'.host = call.host

structure Consistent (w : World) : Prop where
  db       : Sound w.db
  inputs   : ∀ id call, w.calls id = some call → call.position.entered →
    w.inputLocks call.host call.messageId = some id
  sessions : ∀ id call sessionId, w.calls id = some call → call.position.session? = some sessionId →
    w.sessionLocks call.host sessionId = some id
  returned : ∀ id call reply, w.calls id = some call → call.position = .returned reply →
    w.db.reply? call.messageId = some reply
  checked  : ∀ id call sessionId text d, w.calls id = some call → call.position = .checked sessionId text d →
    ∃ d' ∈ w.db.deliveries, d'.messageId = call.messageId ∧ d'.sessionId = d.sessionId
  asking   : ∀ id call, w.calls id = some call → call.position.asking → w.Alone call →
    w.db.results.lookup call.messageId = none

-- A step of one call. The locks of the others stay, and a result is recorded for its own message only.
structure Moved (w : World) (id : Nat) (call : Call) (position : Position) (w' : World) : Prop where
  calls        : w'.calls = Function.update w.calls id (some { call with position })
  inputLocks   : ∀ id' host key, id' ≠ id → w.inputLocks host key = some id' → w'.inputLocks host key = some id'
  sessionLocks : ∀ id' host key, id' ≠ id → w.sessionLocks host key = some id' → w'.sessionLocks host key = some id'
  extends'     : Extends w.db w'.db
  db           : Sound w'.db
  results      : w'.db.results = w.db.results ∨ call.position.entered ∧ position.asking = false ∧
    ∀ messageId, messageId ≠ call.messageId → w'.db.results.lookup messageId = w.db.results.lookup messageId
  inputs       : position.entered → w'.inputLocks call.host call.messageId = some id
  sessions     : ∀ sessionId, position.session? = some sessionId → w'.sessionLocks call.host sessionId = some id
  returned     : ∀ reply, position = .returned reply → w'.db.reply? call.messageId = some reply
  checked      : ∀ sessionId text d, position = .checked sessionId text d →
    ∃ d' ∈ w'.db.deliveries, d'.messageId = call.messageId ∧ d'.sessionId = d.sessionId
  asking       : position.asking → w'.db.results = w.db.results ∧
    (call.position.asking ∨ w.db.results.lookup call.messageId = none)

theorem alone_of_moved (hc : w.calls id = some call) (hcalls : w'.calls = Function.update w.calls id (some { call with position }))
    (h : w'.Alone call') : w.Alone call' := by
  intro id₁ call₁ h₁ hm
  by_cases he : id₁ = id
  case pos =>
    cases (he ▸ h₁).symm.trans hc
    have hnew : w'.calls id = some { call with position } := by rw [hcalls, Function.update_self]
    exact h id { call with position } hnew hm
  case neg => exact h id₁ call₁ (by rw [hcalls, Function.update_of_ne he]; exact h₁) hm

theorem Consistent.moved (h : Consistent w) (hc : w.calls id = some call) (hm : Moved w id call position w') :
    Consistent w' := by
  have hcases : ∀ id' call', w'.calls id' = some call' →
      id' = id ∧ call' = { call with position } ∨ id' ≠ id ∧ w.calls id' = some call' := by
    intro id' call' h'
    rw [hm.calls, Function.update_apply] at h'
    split at h'
    case isTrue he  => exact .inl ⟨he, (Option.some.inj h').symm⟩
    case isFalse he => exact .inr ⟨he, h'⟩
  refine ⟨hm.db, ?_, ?_, ?_, ?_, ?_⟩
  · intro id' call' h' he
    cases hcases id' call' h' with
    | inl hs =>
      obtain ⟨rfl, rfl⟩ := hs
      exact hm.inputs he
    | inr hs => exact hm.inputLocks id' _ _ hs.left (h.inputs id' call' hs.right he)
  · intro id' call' sessionId h' he
    cases hcases id' call' h' with
    | inl hs =>
      obtain ⟨rfl, rfl⟩ := hs
      exact hm.sessions sessionId he
    | inr hs => exact hm.sessionLocks id' _ _ hs.left (h.sessions id' call' sessionId hs.right he)
  · intro id' call' reply h' he
    cases hcases id' call' h' with
    | inl hs =>
      obtain ⟨rfl, rfl⟩ := hs
      exact hm.returned reply he
    | inr hs => exact hm.extends'.reply?_eq (h.returned id' call' reply hs.right he)
  · intro id' call' sessionId text d h' he
    cases hcases id' call' h' with
    | inl hs =>
      obtain ⟨rfl, rfl⟩ := hs
      exact hm.checked sessionId text d he
    | inr hs =>
      have ⟨d₁, hd₁, hm₁, hs₁⟩ := h.checked id' call' sessionId text d hs.right he
      have ⟨d₂, hd₂, hm₂, hs₂⟩ := hm.extends'.deliveries d₁ hd₁
      exact ⟨d₂, hd₂, hm₂.trans hm₁, hs₂.trans hs₁⟩
  · intro id' call' h' he halone
    have halone := alone_of_moved hc hm.calls halone
    cases hcases id' call' h' with
    | inl hs =>
      obtain ⟨rfl, rfl⟩ := hs
      have ⟨hsame, hask⟩ := hm.asking he
      rw [hsame]
      cases hask with
      | inl hask => exact h.asking id' call hc hask halone
      | inr hask => exact hask
    | inr hs =>
      have hold := h.asking id' call' hs.right he halone
      cases hm.results with
      | inl hsame => exact hsame ▸ hold
      | inr hnew =>
        have ⟨hentered, _, hother⟩ := hnew
        by_cases hmessage : call'.messageId = call.messageId
        case neg => exact (hother _ hmessage).trans hold
        case pos =>
          -- both calls would be inside the lock of the message
          have hhost : call.host = call'.host := halone id call hc hmessage.symm
          have hlock := h.inputs id' call' hs.right (entered_of_asking he)
          rw [← hhost, hmessage, h.inputs id call hc hentered] at hlock
          exact absurd (Option.some.inj hlock).symm hs.left

theorem unlocked_of_ne (hne : id' ≠ id) (h : locks host key = some id') :
    World.unlocked locks id host key = some id' := by
  rw [World.unlocked, if_neg ?_, h]
  rw [h]
  exact fun he => hne (Option.some.inj he)

-- A step that enters no lock and writes nothing
theorem Consistent.unwritten (h : Consistent w) (hc : w.calls id = some call)
    (hi : position.entered → call.position.entered)
    (hs : ∀ sessionId, position.session? = some sessionId → call.position.session? = some sessionId)
    (hr : ∀ reply, position ≠ .returned reply)
    (hd : ∀ sessionId text d, position = .checked sessionId text d →
      ∃ d' ∈ w.db.deliveries, d'.messageId = call.messageId ∧ d'.sessionId = d.sessionId)
    (ha : position.asking → call.position.asking ∨ w.db.results.lookup call.messageId = none) :
    Consistent (w.move id call position) := by
  apply h.moved hc
  exact
    {
      calls        := rfl
      inputLocks   := fun _ _ _ _ => (·)
      sessionLocks := fun _ _ _ _ => (·)
      extends'     := .refl
      db           := h.db
      results      := .inl rfl
      inputs       := fun he => h.inputs id call hc (hi he)
      sessions     := fun sessionId he => h.sessions id call sessionId hc (hs sessionId he)
      returned     := fun reply he => absurd he (hr reply)
      checked      := hd
      asking       := fun he => ⟨rfl, ha he⟩
    }

-- The end of a call that writes nothing
theorem Consistent.finish (h : Consistent w) (hc : w.calls id = some call) (hi : position.entered = false)
    (hr : ∀ reply, position = .returned reply → w.db.reply? call.messageId = some reply) :
    Consistent (w.finish id call position) := by
  have hasking : position.asking = false := by
    cases ha : position.asking with
    | false => rfl
    | true  => exact absurd (entered_of_asking ha) (by rw [hi]; nofun)
  apply h.moved hc
  refine ⟨rfl, fun _ _ _ => unlocked_of_ne, fun _ _ _ => unlocked_of_ne, .refl, h.db, .inl rfl, ?_, ?_, hr, ?_, ?_⟩
  · intro he
    rw [hi] at he
    cases he
  · intro sessionId he
    cases position <;> cases he <;> cases hi
  · intro sessionId text d he
    subst he
    cases hi
  · intro he
    rw [hasking] at he
    cases he

theorem Consistent.lock (h : Consistent w) (hc : w.calls id = some call)
    (hfree : w.inputLocks call.host call.messageId = none) :
    Consistent ((w.lockInput id call.host call.messageId).move id call .locked) := by
  apply h.moved hc
  refine ⟨rfl, ?_, fun _ _ _ _ => (·), .refl, h.db, .inl rfl, fun _ => ?_, nofun, nofun, nofun, nofun⟩
  · intro id' host key _ hl
    rw [World.move, World.lockInput]
    dsimp only
    rw [Function.update_apply]
    split
    case isFalse        => exact hl
    case isTrue hhost =>
      subst hhost
      rw [Function.update_of_ne, hl]
      intro hkey
      rw [hkey, hfree] at hl
      cases hl
  · simp [World.move, World.lockInput]

theorem Consistent.enter {content sessionId : String} (h : Consistent w) (hc : w.calls id = some call)
    (hp : call.position = .queued content sessionId) (hfree : w.sessionLocks call.host sessionId = none) :
    Consistent ((w.lockSession id call.host sessionId).move id call (.admitted content sessionId)) := by
  apply h.moved hc
  refine ⟨rfl, fun _ _ _ _ => (·), ?_, .refl, h.db, .inl rfl, fun _ => ?_, ?_, nofun, nofun, nofun⟩
  · intro id' host key _ hl
    rw [World.move, World.lockSession]
    dsimp only
    rw [Function.update_apply]
    split
    case isFalse        => exact hl
    case isTrue hhost =>
      subst hhost
      rw [Function.update_of_ne, hl]
      intro hkey
      rw [hkey, hfree] at hl
      cases hl
  · exact h.inputs id call hc (hp ▸ rfl)
  · intro sessionId' he
    cases he
    simp [World.move, World.lockSession]

theorem Consistent.look (h : Consistent w) (hc : w.calls id = some call) (hp : call.position = .locked) :
    Consistent (w.look id call) := by
  unfold World.look
  split
  case h_1 => exact h.finish hc rfl nofun
  case h_2 =>
    split
    case h_1 reply hreply =>
      refine h.finish hc rfl fun reply' he => ?_
      cases he
      exact hreply
    case h_2 =>
      split
      case h_1 => exact h.finish hc rfl nofun
      case h_2 => exact h.unwritten hc (fun _ => hp ▸ rfl) nofun nofun nofun nofun

theorem Consistent.relook {content sessionId : String} (h : Consistent w) (hc : w.calls id = some call)
    (hp : call.position = .admitted content sessionId) : Consistent (w.relook id call content sessionId) := by
  unfold World.relook
  split
  case h_1 => exact h.finish hc rfl nofun
  case h_2 =>
    split
    case h_1 reply hreply =>
      refine h.finish hc rfl fun reply' he => ?_
      cases he
      exact hreply
    case h_2 hnone =>
      refine h.unwritten hc (fun _ => hp ▸ rfl) (fun _ he => ?_) nofun nofun fun _ => .inr (h.db.result_none hnone)
      cases he
      exact hp ▸ rfl

theorem Consistent.recheck {sessionId text : String} (h : Consistent w) (hc : w.calls id = some call)
    (hp : call.position = .replied sessionId text) : Consistent (w.recheck id call sessionId text) := by
  unfold World.recheck
  split
  case h_1 => exact h.finish hc rfl nofun
  case h_2 delivery hd =>
    split
    case h_1 reply hreply =>
      refine h.finish hc rfl fun reply' he => ?_
      cases he
      exact hreply
    case h_2 hnone =>
      refine h.unwritten hc (fun _ => hp ▸ rfl) (fun _ he => ?_) nofun ?_ fun _ => .inr (h.db.result_none hnone)
      · cases he
        exact hp ▸ rfl
      · intro _ _ d he
        cases he
        have ⟨hmem, hkey⟩ := Table.lookup_eq_some_iff.mp hd
        refine ⟨delivery, hmem, ?_, rfl⟩
        simpa [Delivery.keys, eq_comm] using hkey

theorem Consistent.write {sessionId text assistantId : String} {d : Delivery} (h : Consistent w) (hc : w.calls id = some call)
    (hp : call.position = .checked sessionId text d) : Consistent (w.write id call text d assistantId) := by
  unfold World.write
  split
  case h_1 => exact h.finish hc rfl nofun
  case h_2 db reply hpersist =>
    have hpersists := persists hpersist
    have hd := h.checked id call sessionId text d hc hp
    have hother : ∀ messageId, messageId ≠ call.messageId → db.results.lookup messageId = w.db.results.lookup messageId := by
      intro messageId hne
      refine Table.lookup_congr fun r => ?_
      rw [Table.lookup_eq_some_iff, Table.lookup_eq_some_iff, hpersists.results r, or_and_right, or_iff_left]
      intro ⟨hr, hm⟩
      subst hr
      exact hne (List.mem_singleton.mp hm)
    apply h.moved hc
    refine ⟨rfl, fun _ _ _ => unlocked_of_ne, fun _ _ _ => unlocked_of_ne, hpersists.extends', hpersists.sound h.db hd,
      .inr ⟨hp ▸ rfl, rfl, hother⟩, nofun, nofun, ?_, nofun, nofun⟩
    intro reply' he
    cases he
    exact hpersists.reply?_eq

theorem Consistent.advance {move : Move} (h : Consistent w) (hc : w.calls id = some call) (hp : call.position = position)
    (hs : w.advance id call position move = some w') : Consistent w' := by
  unfold World.advance at hs
  split at hs
  case h_1 | h_2 | h_3 => cases hs
  case h_4             => cases hs; exact h.finish hc rfl nofun
  case h_5             =>
    have ⟨hfree, hs⟩ := Option.ite_none_right_eq_some.mp hs
    cases hs
    exact h.lock hc hfree
  case h_6             => cases hs; exact h.look hc hp
  case h_7             =>
    have ⟨hfree, hs⟩ := Option.ite_none_right_eq_some.mp hs
    cases hs
    exact h.enter hc hp hfree
  case h_8             => cases hs; exact h.relook hc hp
  case h_9             =>
    cases hs
    refine h.unwritten hc (fun _ => hp ▸ rfl) (fun _ he => ?_) nofun nofun fun _ => .inl (hp ▸ rfl)
    cases he
    exact hp ▸ rfl
  case h_10            => cases hs; exact h.finish hc rfl nofun
  case h_11            => cases hs; exact h.recheck hc hp
  case h_12            => cases hs; exact h.write hc hp
  case h_13            => cases hs

theorem Consistent.start (h : Consistent w) (hfree : w.calls id = none) :
    Consistent { w with calls := Function.update w.calls id (some { host, messageId, position := .waiting }) } := by
  have hcases : ∀ id' call', Function.update w.calls id (some { host, messageId, position := .waiting }) id' = some call' →
      call'.position = .waiting ∨ w.calls id' = some call' := by
    intro id' call' h'
    rw [Function.update_apply] at h'
    split at h'
    case isTrue  =>
      cases h'
      exact .inl rfl
    case isFalse => exact .inr h'
  refine ⟨h.db, ?_, ?_, ?_, ?_, ?_⟩
  · intro id' call' h' he
    cases hcases id' call' h' with
    | inl hs => rw [hs] at he; cases he
    | inr hs => exact h.inputs id' call' hs he
  · intro id' call' sessionId h' he
    cases hcases id' call' h' with
    | inl hs => rw [hs] at he; cases he
    | inr hs => exact h.sessions id' call' sessionId hs he
  · intro id' call' reply h' he
    cases hcases id' call' h' with
    | inl hs => rw [hs] at he; cases he
    | inr hs => exact h.returned id' call' reply hs he
  · intro id' call' sessionId text d h' he
    cases hcases id' call' h' with
    | inl hs => rw [hs] at he; cases he
    | inr hs => exact h.checked id' call' sessionId text d hs he
  · intro id' call' h' he halone
    cases hcases id' call' h' with
    | inl hs => rw [hs] at he; cases he
    | inr hs =>
      refine h.asking id' call' hs he ?_
      intro id₁ call₁ h₁ hm
      refine halone id₁ call₁ ?_ hm
      dsimp only
      rw [Function.update_of_ne, h₁]
      intro he
      rw [he, hfree] at h₁
      cases h₁

theorem Consistent.outside (h : Consistent w) (o : Outside) : Consistent { w with db := o.perform w.db } := by
  have ⟨hext, hresults⟩ := @Handling.outside w.db o
  refine ⟨h.db.extend hext hresults, h.inputs, h.sessions, ?_, ?_, ?_⟩
  · exact fun id call reply hc hp => hext.reply?_eq (h.returned id call reply hc hp)
  · intro id call sessionId text d hc hp
    have ⟨d₁, hd₁, hm₁, hs₁⟩ := h.checked id call sessionId text d hc hp
    have ⟨d₂, hd₂, hm₂, hs₂⟩ := hext.deliveries d₁ hd₁
    exact ⟨d₂, hd₂, hm₂.trans hm₁, hs₂.trans hs₁⟩
  · intro id call hc hp halone
    exact hresults ▸ h.asking id call hc hp halone

theorem Consistent.step {event : Event} (h : Consistent w) (hs : w.step event = some w') : Consistent w' := by
  cases event with
  | outside o                => cases hs; exact h.outside o
  | start id host messageId  =>
    have ⟨hfree, hs⟩ := Option.ite_none_left_eq_some.mp hs
    cases hs
    exact h.start (Option.not_isSome_iff_eq_none.mp hfree)
  | call id move             =>
    have ⟨call, hc, hs⟩ := Option.bind_eq_some_iff.mp hs
    exact h.advance hc rfl hs

theorem consistent (r : handlingSystem.Reachable w) : Consistent w := by
  refine r.invariant ?_ fun _ h hs => Consistent.step h hs
  intro w ⟨hdb, hinputs, hsessions, hcalls⟩
  refine ⟨?_, ?_, ?_, ?_, ?_, ?_⟩
  · rw [hdb]
    exact ⟨fun r hr => absurd hr Table.not_mem_empty, fun r hr => absurd hr Table.not_mem_empty⟩
  · intro id call hc
    rw [hcalls] at hc
    cases hc
  · intro id call sessionId hc
    rw [hcalls] at hc
    cases hc
  · intro id call reply hc
    rw [hcalls] at hc
    cases hc
  · intro id call sessionId text d hc
    rw [hcalls] at hc
    cases hc
  · intro id call hc
    rw [hcalls] at hc
    cases hc

end Calls
section Sample

def sampleStart : World where
  db           := .empty
  inputLocks   := fun _ _ => none
  sessionLocks := fun _ _ => none
  calls        := fun _ => none

-- Two processes ask the provider about one input, and one of them records its reply; a later call returns it.
def sampleEvents : List Event :=
  [
    .outside (.session ⟨"s", "p"⟩),
    .outside (.input "s" "hello" ⟨"p", "parent", 1⟩ true "m" "d" (Mail.Sample.clock 0)),
    .start 0 0 "m", .call 0 .lock, .call 0 .look, .call 0 .enter, .call 0 .relook,
    .start 1 1 "m", .call 1 .lock, .call 1 .look, .call 1 .enter, .call 1 .relook,
    .call 0 (.provider (some "hi")), .call 1 (.provider (some "ho")), .call 0 .recheck, .call 1 .recheck,
    .call 1 (.write "a"), .call 0 (.write "b"),
    .start 2 0 "m", .call 2 .lock, .call 2 .look
  ]

end Sample
end RuntimeInput.Handling
