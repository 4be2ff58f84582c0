import Mathlib.Data.Prod.Lex
import BridleModel.Library.Except
import BridleModel.Library.SortBy
import BridleModel.Mailbox.Store

open Python

-- The application's tables for the messages of a session, their deliveries to a runtime and the replies.
namespace RuntimeInput

open Mail (AgentAddress)

structure Session where
  id        : String
  projectId : String
deriving DecidableEq, Repr

structure Message where
  id        : String
  sessionId : String
  role      : String
  content   : String
deriving DecidableEq, Repr

inductive DeliveryStatus
  | pending
  | delivered
deriving DecidableEq, Repr

structure Delivery where
  id               : String
  messageId        : String
  sessionMessageId : String
  projectId        : String
  sessionId        : String
  targetAgentId    : String
  targetGeneration : Nat
  status           : DeliveryStatus
  attempt          : Nat
  createdAt        : DateTime

inductive DeliveryKey
  | id (id : String)
  | message (messageId : String)
deriving DecidableEq, Repr

def Delivery.keys (d : Delivery) : List DeliveryKey :=
  [.id d.id, .message d.messageId]

-- ORDER BY created_at, id
def Delivery.position (d : Delivery) : Nat ×ₗ String :=
  toLex (d.createdAt.toMicroseconds, d.id)

-- `runtime_input_results`
structure Result where
  messageId          : String
  assistantMessageId : String
deriving DecidableEq, Repr

structure AppDb where
  sessions   : Table Session fun row => [row.id]
  messages   : Table Message fun row => [row.id]
  deliveries : Table Delivery Delivery.keys
  results    : Table Result fun row => [row.messageId]

inductive Error
  | sessionNotFound
  | projectUnavailable -- "project_unavailable_read_only"
  | targetMismatch -- "runtime_input_target_mismatch"
  | integrity -- IntegrityError
  | deliveryMissing -- "runtime_input_delivery_missing"
  | messageMissing -- "runtime_input_message_missing"
  | provider -- what the provider raises
deriving DecidableEq, Repr

namespace AppDb

variable (db : AppDb)

def empty : AppDb where
  sessions   := .empty
  messages   := .empty
  deliveries := .empty
  results    := .empty

def delivery? (messageId : String) : Option Delivery :=
  db.deliveries.lookup (.message messageId)

-- `ProjectSessionService.create`
def createSession (session : Session) : Except Error AppDb :=
  match db.sessions.insert? session with
  | some sessions => .ok { db with sessions }
  | none          => .error .integrity

-- `ProjectSessionService.create_message`; whether the project's path is a directory is up to the file system.
def createMessage (message : Message) (available : Bool) : Except Error AppDb :=
  match db.sessions.lookup message.sessionId with
  | none   => .error .sessionNotFound
  | some _ =>
    if !available then .error .projectUnavailable
    else
      match db.messages.insert? message with
      | some messages => .ok { db with messages }
      | none          => .error .integrity

-- `ProjectSessionService.create_runtime_input`: the message and its delivery in one transaction
def createRuntimeInput (sessionId content : String) (target : AgentAddress) (available : Bool)
    (messageId deliveryId : String) (now : DateTime) : Except Error AppDb :=
  match db.sessions.lookup sessionId with
  | none         => .error .sessionNotFound
  | some session =>
    if !available then .error .projectUnavailable
    else if target.projectId ≠ session.projectId then .error .targetMismatch
    else
      let message : Message := { id := messageId, sessionId, role := "user", content }
      let delivery : Delivery :=
        {
          id               := deliveryId
          messageId        := messageId
          sessionMessageId := messageId
          projectId        := session.projectId
          sessionId        := sessionId
          targetAgentId    := target.agentId
          targetGeneration := target.generation
          status           := .pending
          attempt          := 0
          createdAt        := now
        }
      match db.messages.insert? message, db.deliveries.insert? delivery with
      | some messages, some deliveries => .ok { db with messages, deliveries }
      | _, _                           => .error .integrity

-- UPDATE runtime_input_deliveries SET ... WHERE id = ?
def updateDelivery (deliveryId : String) (f : Delivery → Delivery) (h : ∀ d, (f d).keys = d.keys) : AppDb :=
  { db with deliveries := db.deliveries.modify (·.id = deliveryId) f (Table.keep h) }

def setAttempt (deliveryId : String) (attempt : Nat) : AppDb :=
  db.updateDelivery deliveryId (fun d => { d with attempt }) fun _ => rfl

def setDelivered (deliveryId : String) : AppDb :=
  db.updateDelivery deliveryId (fun d => { d with status := .delivered }) fun _ => rfl

-- The ids of the pending deliveries, of one project or all, in order of creation
def pendingIds (projectId : Option String) : List String :=
  let rows := db.deliveries.rows.filter fun d => d.status = .pending ∧ projectId.all (· = d.projectId)
  (SortBy.sortBy Delivery.position rows).map (·.id)

-- The reply to an input with its record, in one transaction
def persistReply (delivery : Delivery) (messageId assistantId content : String) : Except Error (AppDb × Message) :=
  let assistant : Message := { id := assistantId, sessionId := delivery.sessionId, role := "assistant", content }
  match db.messages.insert? assistant, db.results.insert? { messageId, assistantMessageId := assistantId } with
  | some messages, some results => .ok ({ db with messages, results }, assistant)
  | _, _                        => .error .integrity

-- The reply that is recorded for an input
def reply? (messageId : String) : Option Message :=
  (db.results.lookup messageId).bind fun result => db.messages.lookup result.assistantMessageId

end AppDb
end RuntimeInput
