import BridleModel.Json.Canonical
import BridleModel.Library.Processes
import BridleModel.Mailbox.Theorems.Table
import BridleModel.Runtime.InputStore

open Python

namespace RuntimeInput

open Mail (AgentAddress MailEnvelope Mailboxes PersistentMailbox ResultStatus)

-- The application's database and the `mail.db` of every project
structure Store where
  db   : AppDb
  mail : String → Mailboxes

-- Why a delivery stays pending: the `error_code` of `runtime_input.relay_retry`
inductive RetryCode
  | messageMissing
  | raised
  | mail (status : ResultStatus)
deriving DecidableEq, Repr

-- A call of `relay_pending` with the ids that it has selected, those still to do and what it has done so far
structure Pass where
  listed    : List String
  rest      : List String
  delivered : Nat
  retries   : List (String × RetryCode)

inductive Relay
  | idle
  | passing (pass : Pass)
  | found (pass : Pass) (delivery : Delivery)
  | loaded (pass : Pass) (delivery : Delivery) (message : Message)
  | attempted (pass : Pass) (delivery : Delivery) (message : Message)
  | enqueued (pass : Pass) (delivery : Delivery)

-- An exception that is not caught, a cancellation and a crash of the process end the call.
inductive Move
  | list (projectId : Option String)
  | read
  | commit
  | enqueue (box : Nat) (now : DateTime) (verdict : Mail.Verdict)
  | deliver
  | fail

-- The calls of everybody but the relays. The ids of messages and deliveries are drawn.
inductive Call
  | session (session : Session)
  | message (message : Message) (available : Bool)
  | input (sessionId content : String) (target : AgentAddress) (available : Bool) (messageId deliveryId : String)
      (now : DateTime)
  | reply (delivery : Delivery) (messageId assistantId content : String)
  | mail (projectId : String) (attempt : Mail.Attempt)

def messageType : String :=
  "runtime-input"

namespace Delivery

variable (d : Delivery)

def target : AgentAddress where
  projectId  := d.projectId
  agentId    := d.targetAgentId
  generation := d.targetGeneration

def payload (message : Message) : Json.Dict :=
  [
    ("session_id", .str d.sessionId), ("session_message_id", .str d.sessionMessageId), ("role", .str message.role),
    ("content", .str message.content)
  ]

def envelope (message : Message) : MailEnvelope where
  messageId   := d.messageId
  messageType := messageType
  source      := ⟨d.projectId, "session-gateway", 1⟩
  target      := d.target
  payloadJson := (Json.obj (d.payload message)).dumps

end Delivery

namespace Pass

variable (pass : Pass)

def retry (delivery : Delivery) (code : RetryCode) : Pass :=
  { pass with retries := pass.retries ++ [(delivery.id, code)] }

def deliver : Pass :=
  { pass with delivered := pass.delivered + 1 }

end Pass

-- The other senders use message types and identifiers of their own, and nobody sends under an id before it is drawn.
def permitted (s : Store) : Call → Bool
  | .input _ _ target _ messageId _ _          => ((s.mail target.projectId).db.row? messageId).isNone
  | .mail _ ⟨.enqueue _ envelope _, _⟩         =>
    envelope.messageType ≠ messageType ∧ (s.db.delivery? envelope.messageId).isNone
  | _                                          => true

variable (boxes : String → Nat → PersistentMailbox)

def perform (s : Store) (call : Call) : Option Store :=
  if permitted s call then
    match call with
    | .session session                                                       =>
      some { s with db := (s.db.createSession session).orElseKeep s.db }
    | .message message available                                             =>
      some { s with db := (s.db.createMessage message available).orElseKeep s.db }
    | .input sessionId content target available messageId deliveryId now     =>
      let db := s.db.createRuntimeInput sessionId content target available messageId deliveryId now
      some { s with db := db.orElseKeep s.db }
    | .reply delivery messageId assistantId content                          =>
      let db := (·.fst) <$> s.db.persistReply delivery messageId assistantId content
      some { s with db := db.orElseKeep s.db }
    | .mail projectId attempt                                                =>
      let mail := (s.mail projectId).afterAttempt (boxes projectId) attempt
      some { s with mail := Function.update s.mail projectId mail }
  else none

-- `_mailbox_for_project(...).enqueue(envelope)`; what it raises is caught.
def enqueue (s : Store) (pass : Pass) (delivery : Delivery) (message : Message) (box : Nat) (now : DateTime)
    (verdict : Mail.Verdict) : Store × Relay :=
  let projectId := delivery.projectId
  match (s.mail projectId).attempt (boxes projectId) ⟨.enqueue box (delivery.envelope message) now, verdict⟩ with
  | .ok (mail, .result res) =>
    let s := { s with mail := Function.update s.mail projectId mail }
    if res.status = .inserted ∨ res.status = .existing then (s, .enqueued pass delivery)
    else (s, .passing (pass.retry delivery (.mail res.status)))
  | .ok (_, .busy) | .error _ => (s, .passing (pass.retry delivery .raised))

def advance (s : Store) : Relay → Move → Option (Store × Relay)
  | _, .fail                                        => some (s, .idle)
  | .idle, .list projectId                          =>
    let ids := s.db.pendingIds projectId
    some (s, .passing { listed := ids, rest := ids, delivered := 0, retries := [] })
  | .passing ⟨listed, id :: rest, delivered, retries⟩, .read =>
    let pass : Pass := ⟨listed, rest, delivered, retries⟩
    match s.db.deliveries.lookup (.id id) with
    | none          => some (s, .passing pass)
    | some delivery => if delivery.status = .pending then some (s, .found pass delivery) else some (s, .passing pass)
  | .found pass delivery, .read                     =>
    match s.db.messages.lookup delivery.sessionMessageId with
    | none         => some (s, .passing (pass.retry delivery .messageMissing))
    | some message => some (s, .loaded pass delivery message)
  | .loaded pass delivery message, .commit          =>
    some ({ s with db := s.db.setAttempt delivery.id (delivery.attempt + 1) }, .attempted pass delivery message)
  | .attempted pass delivery message, .enqueue box now verdict => some (enqueue boxes s pass delivery message box now verdict)
  | .enqueued pass delivery, .deliver               =>
    some ({ s with db := s.db.setDelivered delivery.id }, .passing pass.deliver)
  | _, _                                            => none

def processes : Processes Store Relay Call Move where
  init s      := s = { db := .empty, mail := fun _ => .init }
  start       := .idle
  environment := perform boxes
  advance     := advance boxes

def relaySystem : TransitionSystem (Processes.Configuration Store Relay) (Processes.Label Call Move) :=
  (processes boxes).system

end RuntimeInput
