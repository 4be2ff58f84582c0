import Mathlib.Logic.Function.Basic
import BridleModel.Library.Execution
import BridleModel.Runtime.InputStore

-- Calls of `ParentChildRuntimeCoordinator.handle_input` next to each other, in any number of processes. A process that
-- crashes takes no more steps; its locks are its own.
namespace RuntimeInput.Handling

open Python
open Mail (AgentAddress)

-- Where a call stands. The rows that the reads of one block find never change, so that a block reads in one step.
inductive Position
  | waiting
  | locked
  | queued (content sessionId : String)
  | admitted (content sessionId : String)
  | calling (content sessionId : String)
  | replied (sessionId text : String)
  | checked (sessionId text : String) (delivery : Delivery)
  | returned (reply : Message)
  | raised (error : Error)
  | cancelled

structure Call where
  host      : Nat
  messageId : String
  position  : Position

structure World where
  db           : AppDb
  inputLocks   : Nat → String → Option Nat
  sessionLocks : Nat → String → Option Nat
  calls        : Nat → Option Call

-- What everybody else does to the tables. The ids of messages are drawn.
inductive Outside
  | session (session : Session)
  | message (message : Message) (available : Bool)
  | input (sessionId content : String) (target : AgentAddress) (available : Bool) (messageId deliveryId : String)
      (now : DateTime)
  | attempt (deliveryId : String) (count : Nat)
  | delivered (deliveryId : String)

-- The provider answers with a text, or raises.
inductive Move
  | lock
  | look
  | enter
  | relook
  | provider (text : Option String)
  | recheck
  | write (assistantId : String)
  | cancel

inductive Event
  | outside (o : Outside)
  | start (id host : Nat) (messageId : String)
  | call (id : Nat) (move : Move)

def Outside.perform (db : AppDb) : Outside → AppDb
  | .session row                                                       => (db.createSession row).orElseKeep db
  | .message row available                                             => (db.createMessage row available).orElseKeep db
  | .input sessionId content target available messageId deliveryId now =>
    (db.createRuntimeInput sessionId content target available messageId deliveryId now).orElseKeep db
  | .attempt deliveryId count                                          => db.setAttempt deliveryId count
  | .delivered deliveryId                                              => db.setDelivered deliveryId

namespace World

variable (w : World)

def move (id : Nat) (call : Call) (position : Position) : World :=
  { w with calls := Function.update w.calls id (some { call with position }) }

def lockInput (id host : Nat) (messageId : String) : World :=
  { w with inputLocks := Function.update w.inputLocks host (Function.update (w.inputLocks host) messageId (some id)) }

def lockSession (id host : Nat) (sessionId : String) : World :=
  {
    w with
    sessionLocks := Function.update w.sessionLocks host (Function.update (w.sessionLocks host) sessionId (some id))
  }

def unlocked (locks : Nat → String → Option Nat) (id : Nat) : Nat → String → Option Nat :=
  fun host key => if locks host key = some id then none else locks host key

-- The end of a call, which leaves the locks that it has entered
def finish (id : Nat) (call : Call) (position : Position) : World :=
  { w with inputLocks := unlocked w.inputLocks id, sessionLocks := unlocked w.sessionLocks id }.move id call position

-- The reads under the message's lock
def look (id : Nat) (call : Call) : World :=
  match w.db.delivery? call.messageId with
  | none          => w.finish id call (.raised .deliveryMissing)
  | some delivery =>
    match w.db.reply? call.messageId with
    | some reply => w.finish id call (.returned reply)
    | none       =>
      match w.db.messages.lookup delivery.sessionMessageId with
      | none      => w.finish id call (.raised .messageMissing)
      | some user => w.move id call (.queued user.content delivery.sessionId)

-- The reads under the session's lock
def relook (id : Nat) (call : Call) (content sessionId : String) : World :=
  match w.db.delivery? call.messageId with
  | none   => w.finish id call (.raised .deliveryMissing)
  | some _ =>
    match w.db.reply? call.messageId with
    | some reply => w.finish id call (.returned reply)
    | none       => w.move id call (.calling content sessionId)

-- The reads after the provider has answered
def recheck (id : Nat) (call : Call) (sessionId text : String) : World :=
  match w.db.delivery? call.messageId with
  | none          => w.finish id call (.raised .deliveryMissing)
  | some delivery =>
    match w.db.reply? call.messageId with
    | some reply => w.finish id call (.returned reply)
    | none       => w.move id call (.checked sessionId text delivery)

def write (id : Nat) (call : Call) (text : String) (delivery : Delivery) (assistantId : String) : World :=
  match w.db.persistReply delivery call.messageId assistantId text with
  | .error error     => w.finish id call (.raised error)
  | .ok (db, reply) => { w with db }.finish id call (.returned reply)

def advance (id : Nat) (call : Call) : Position → Move → Option World
  | .returned _, _ | .raised _, _ | .cancelled, _          => none
  | _, .cancel                                             => some (w.finish id call .cancelled)
  | .waiting, .lock                                        =>
    if w.inputLocks call.host call.messageId = none then
      some ((w.lockInput id call.host call.messageId).move id call .locked)
    else none
  | .locked, .look                                         => some (w.look id call)
  | .queued content sessionId, .enter                      =>
    if w.sessionLocks call.host sessionId = none then
      some ((w.lockSession id call.host sessionId).move id call (.admitted content sessionId))
    else none
  | .admitted content sessionId, .relook                   => some (w.relook id call content sessionId)
  | .calling _ sessionId, .provider (some text)            => some (w.move id call (.replied sessionId text))
  | .calling _ _, .provider none                           => some (w.finish id call (.raised .provider))
  | .replied sessionId text, .recheck                      => some (w.recheck id call sessionId text)
  | .checked _ text delivery, .write assistantId           => some (w.write id call text delivery assistantId)
  | _, _                                                   => none

def step : Event → Option World
  | .outside o               => some { w with db := o.perform w.db }
  | .start id host messageId =>
    if (w.calls id).isSome then none
    else some { w with calls := Function.update w.calls id (some { host, messageId, position := .waiting }) }
  | .call id move            => (w.calls id).bind fun call => w.advance id call call.position move

end World

def handlingSystem : TransitionSystem World Event where
  init w := w.db = .empty ∧ (∀ host key, w.inputLocks host key = none) ∧ (∀ host key, w.sessionLocks host key = none) ∧
    ∀ id, w.calls id = none
  step   := World.step

end RuntimeInput.Handling
