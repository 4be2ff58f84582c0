import BridleModel.Library.Processes
import BridleModel.Mailbox.System
import BridleModel.NodeExecution.Store

open Python Mail

namespace NodeExecution

-- `plan.db` and the project's `mail.db`.
structure Store where
  db   : Db
  mail : Mailboxes

namespace Store

def init : Store where
  db   := .init
  mail := .init

-- A transaction that raises is rolled back.
def create (s : Store) (nodeId ownerAddress executionHex waitHex : String) : Store :=
  let db := (·.fst) <$> s.db.createNodeExecution nodeId ownerAddress executionHex waitHex
  { s with db := db.orElseKeep s.db }

def complete (s : Store) (waitId outcome : String) (resultRef phase : Option String)
    (now : String) : Store :=
  let db := (·.fst) <$> s.db.completeExecution waitId outcome resultRef phase now
  { s with db := db.orElseKeep s.db }

end Store

-- The calls of everybody but the forwarders. The hexadecimal texts are drawn.
inductive Call
  | create (nodeId ownerAddress executionHex waitHex : String)
  | complete (waitId outcome : String) (resultRef phase : Option String) (now : String)
  | mail (a : Mail.Action)

def messageType : String :=
  "node-workflow-result"

def ours (messageId messageType : String) : Bool :=
  messageType = NodeExecution.messageType ∨ "node-workflow-result:".toList.isPrefixOf messageId.toList

-- The other senders use message types and identifiers of their own.
def foreign : Mail.Action → Bool
  | .enqueue _ envelope _ => !ours envelope.messageId envelope.messageType
  | _                     => true

structure Coordinator where
  mailbox : Nat
  owner   : AgentAddress

def Coordinator.envelope (self : Coordinator) (item : Notification) :
    Except MailboxError MailEnvelope :=
  match AgentAddress.parse item.ownerAddress with
  | .error e   => .error e
  | .ok target => .ok {
      messageId   := item.messageId
      messageType := messageType
      source      := ⟨self.owner.projectId, "node-workflow", 1⟩
      target      := target
      payloadJson := (Json.obj item.payload).dumps
    }

-- Where a call of `forward_completion_mail` stands.
inductive Position
  | idle
  | forwarding (self : Coordinator) (items : List Notification)
  | marking (self : Coordinator) (item : Notification) (status : ResultStatus)
      (items : List Notification)

inductive Input
  | forward (self : Coordinator)
  | next (now : DateTime)
  | crash

variable (boxes : Nat → PersistentMailbox)

def perform (s : Store) : Call → Option Store
  | .create n owner executionHex waitHex => s.create n owner executionHex waitHex
  | .complete w outcome result phase now => s.complete w outcome result phase now
  | .mail a => if foreign a then some { s with mail := s.mail.after boxes a } else none

-- An exception ends the call.
def advance (s : Store) : Position → Input → Option (Store × Position)
  | _, .crash                          => some (s, .idle)
  | .idle, .forward self               => some (s, .forwarding self s.db.listPendingCompletionOutbox)
  | .forwarding _ [], .next _          => some (s, .idle)
  | .forwarding self (item :: items), .next now =>
    match self.envelope item with
    | .error _     => some (s, .idle)
    | .ok envelope =>
      match s.mail.perform boxes (.enqueue self.mailbox envelope now) with
      | .error _        => some (s, .idle)
      | .ok (mail, res) => some ({ s with mail }, .marking self item res.status items)
  | .marking self item status items, .next _ =>
    let db :=
      if status = .inserted ∨ status = .existing then
        s.db.markCompletionOutboxSent item.waitId
      else
        s.db.markCompletionOutboxAttempt item.waitId
    some ({ s with db }, .forwarding self items)
  | _, _ => none

def processes : Processes Store Position Call Input where
  init s      := s = .init
  start       := .idle
  environment := perform boxes
  advance     := advance boxes

def system : TransitionSystem (Processes.Configuration Store Position) (Processes.Label Call Input) :=
  (processes boxes).system

end NodeExecution
