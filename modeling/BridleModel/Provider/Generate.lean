import BridleModel.Library.Execution
import BridleModel.Python.Text
import BridleModel.Python.Value

-- The conversation that `DeepSeekAgentProvider.generate` has with the model, round by round.
namespace Provider

-- What the conversation takes from the interpreter (with `dumps` for `json.dumps(value, ensure_ascii=False, default=str)`
-- and `argsHash` for the digest in the keys of the tracker), from `parse_proposal_content` (the text of its error when
-- it calls the proposal invalid) and from the variables of its environment.
structure Env where
  conversions     : Python.Conversions
  loads           : String → Option Json
  dumps           : Json → String
  argsHash        : Json → String
  parse           : String → Option String
  nonRetryableMax : Int
  retryableMax    : Int
  timeoutMax      : Int
  testCommandMax  : Int

variable (env : Env)

def isText (value : Option Json) (text : String) : Bool :=
  match value with
  | some (.str s) => s = text
  | _             => false

namespace ToolResultReceiptBuilder

def errorSummaryMaxChars : Nat :=
  240

def successFields : List String :=
  ["status", "success", "id", "path", "sha256", "cursor", "exit_code"]

def errorFields : List String :=
  ["status", "success", "error_code", "error_type", "exit_code", "category", "retryable"]

def pick (data : Json.Dict) (fields : List String) : Json.Dict :=
  fields.filterMap fun key =>
    match data.get key with
    | none | some .null => none
    | some value        => some (key, value)

def build (toolName rawContent : String) : String :=
  let data : Json.Dict :=
    match env.loads rawContent with
    | some (.obj data) => data
    | _                => []
  let failed := isText (data.get "status") "failed"
  let receipt := pick data (if failed then errorFields else successFields)
  let receipt :=
    match data.get "message" with
    | some message =>
      if failed ∧ Python.truthy message then
        receipt.set "error_summary" (.str (String.ofList ((env.conversions.str message).toList.take errorSummaryMaxChars)))
      else
        receipt
    | none         => receipt
  Json.dumps (.obj (receipt.set "tool_name" (.str (if toolName = "" then "unknown" else toolName))))

end ToolResultReceiptBuilder

section Tracker

structure ToolState where
  attempts            : Nat
  consecutiveFailures : Nat
  lastErrorCode       : Json
  lastRetryable       : Json

-- `ToolCallTracker._states`
abbrev Tracker :=
  String → Option ToolState

namespace Tracker

def key (toolName : String) (arguments : Json) : String :=
  toolName ++ ":" ++ env.argsHash arguments

variable (tracker : Tracker) (toolName : String) (arguments : Json)

def recordResult (result : Json.Dict) : Tracker :=
  let state := (tracker (key env toolName arguments)).getD ⟨0, 0, .null, .null⟩
  Function.update tracker (key env toolName arguments) <| some <|
    if isText (result.get "status") "failed" then
      {
        attempts            := state.attempts + 1
        consecutiveFailures := state.consecutiveFailures + 1
        lastErrorCode       := (result.get "error_code").getD .null
        lastRetryable       := (result.get "retryable").getD (.bool false)
      }
    else
      { attempts := state.attempts + 1, consecutiveFailures := 0, lastErrorCode := .null, lastRetryable := .null }

def maxFailures (state : ToolState) : Int :=
  if toolName = "run_command" ∧ Python.truthy state.lastRetryable then
    env.testCommandMax
  else if isText (some state.lastErrorCode) "TestCommandTimeout" ∨
      isText (some state.lastErrorCode) "WebSearchTimeout" then
    env.timeoutMax
  else if Python.truthy state.lastRetryable then
    env.retryableMax
  else
    env.nonRetryableMax

def circuitOpen (state : ToolState) : Json.Dict :=
  [
    ("status", .str "failed"),
    ("error_code", .str "tool_circuit_open"),
    ("message", .str ("Tool '" ++ toolName ++ "' circuit breaker opened after " ++ toString state.consecutiveFailures ++
      " consecutive failures. Change arguments, try a different tool, or report_blocked.")),
    ("category", .str "circuit_breaker"),
    ("retryable", .bool false),
    ("attempts", .num state.attempts),
    ("consecutive_failures", .num state.consecutiveFailures),
    ("next_action", .str "change_arguments_or_report_blocked")
  ]

def shouldCircuitOpen : Option Json.Dict :=
  match tracker (key env toolName arguments) with
  | none       => none
  | some state =>
    if state.consecutiveFailures = 0 then none
    else if maxFailures env toolName state ≤ state.consecutiveFailures then some (circuitOpen toolName state)
    else none

def enrichResult (result : Json.Dict) : Json.Dict :=
  match tracker (key env toolName arguments) with
  | none       => result
  | some state =>
    (((result.set "attempts" (.num state.attempts)).set "consecutive_failures" (.num state.consecutiveFailures)).set
      "last_error_code" state.lastErrorCode).set "last_retryable" state.lastRetryable

end Tracker

end Tracker

section Messages

inductive Arguments
  | text (text : String)
  | object (fields : Json.Dict)

-- A call in `message["tool_calls"]`, with its id as it is sent (`null` for none)
structure ToolCall where
  id        : Json
  name      : String
  arguments : Arguments

structure ResponseMessage where
  content          : Option String
  reasoningContent : Option String
  toolCalls        : List ToolCall

-- An assistant message without calls has no such field.
inductive Message
  | system (content : String)
  | user (content : String)
  | assistant (content : Option String) (toolCalls : List ToolCall) (reasoningContent : Option String)
  | tool (toolCallId : Json) (name : String) (content : String)

namespace Message

def isTool : Message → Bool
  | tool _ _ _ => true
  | _          => false

def toolCalls : Message → List ToolCall
  | assistant _ toolCalls _ => toolCalls
  | _                       => []

def toolCallId : Message → Option Json
  | tool toolCallId _ _ => some toolCallId
  | _                   => none

-- What is left of a message whose content the model has read
def receipt : Message → Message
  | tool toolCallId name content => tool toolCallId name (ToolResultReceiptBuilder.build env name content)
  | message                      => message

end Message

-- `_assistant_tool_round_message`
def assistantToolRoundMessage (message : ResponseMessage) : Message :=
  .assistant message.content message.toolCalls
    (message.reasoningContent.filter fun reasoning => Python.strip reasoning ≠ "")

def repairMessage (error : String) : Message :=
  .user <| "Your terminal response is invalid. Return one JSON object with terminal_status set to completed or blocked, " ++
    "a reason string, a non-empty summary, file_patches, and tests_to_run. Validation error: " ++ error

def emptyMessage : Message :=
  .user <| "Your terminal response is empty. Return one JSON object with terminal_status set to completed or blocked, " ++
    "a reason string, a non-empty summary, file_patches, and tests_to_run."

end Messages

section Generate

-- What the outside does in one call: whether the time is up before it, and the result of `registry.execute`, or `none`
-- where it raises or the deadline passes.
structure CallTurn where
  exhausted : Bool
  executed  : Option Json.Dict

-- The same for one round, with the message of the response, or `none` where the request raises.
structure Turn where
  exhausted : Bool
  response  : Option ResponseMessage
  calls     : Nat → CallTurn

-- `consumed` holds the places of the messages whose identities are in `consumed_tool_message_ids`. The requests that
-- were sent and the messages as they were appended (`produced`) are kept for the statements only.
structure Conversation where
  messages : List Message
  consumed : List Nat
  tracker  : Tracker
  ended    : Bool
  requests : List (List Message)
  produced : List Message

namespace Conversation

-- `builder.build_messages()`
def start (systemContent userContent : String) : Conversation where
  messages := [.system systemContent, .user userContent]
  consumed := []
  tracker  := fun _ => none
  ended    := false
  requests := []
  produced := [.system systemContent, .user userContent]

variable (c : Conversation)

def append (message : Message) : Conversation :=
  { c with messages := c.messages ++ [message], produced := c.produced ++ [message] }

def send : Conversation :=
  { c with requests := c.requests ++ [c.messages] }

def stop : Conversation :=
  { c with ended := true }

-- The loop over the messages after a response
def consume : Conversation :=
  {
    c with
    messages := c.messages.mapIdx fun i message =>
      if message.isTool ∧ i ∉ c.consumed then message.receipt env else message
    consumed := c.consumed ++
      (List.range c.messages.length).filter fun i => (c.messages[i]?.any Message.isTool) ∧ i ∉ c.consumed
  }

end Conversation

def parseArguments : Arguments → Option Json
  | .text text     => env.loads (if text = "" then "\x7b\x7d" else text)
  | .object fields => some (.obj fields)

variable (c : Conversation)

-- One turn of the loop over the calls; `none` is an exception.
def runCall (call : ToolCall) (turn : CallTurn) : Option Conversation :=
  if turn.exhausted then none
  else do
    let args ← parseArguments env call.arguments
    match c.tracker.shouldCircuitOpen env call.name args with
    | some result => some (c.append (.tool call.id call.name (env.dumps (.obj result))))
    | none        =>
      let result ← turn.executed
      let tracker := c.tracker.recordResult env call.name args result
      let result := tracker.enrichResult env call.name args result
      some ({ c with tracker }.append (.tool call.id call.name (env.dumps (.obj result))))

def runCalls (c : Conversation) : List ToolCall → (Nat → CallTurn) → Conversation
  | [], _               => c
  | call :: calls, turn =>
    match runCall env c call (turn 0) with
    | none   => c.stop
    | some c => runCalls c calls fun i => turn (i + 1)

def round (turn : Turn) : Conversation :=
  if turn.exhausted then c.stop
  else
    match turn.response with
    | none         => c.send.stop
    | some message =>
      let c := c.send.consume env
      if message.toolCalls ≠ [] then
        runCalls env (c.append (assistantToolRoundMessage message)) message.toolCalls turn.calls
      else if Python.strip (message.content.getD "") ≠ "" then
        match env.parse (message.content.getD "") with
        | some error => (c.append (.assistant message.content [] none)).append (repairMessage error)
        | none       => c.stop
      else
        (c.append (.assistant (some (message.content.getD "")) [] none)).append emptyMessage

-- Every label is what the outside does in one round.
def generateSystem : TransitionSystem Conversation Turn where
  init c      := ∃ systemContent userContent, c = .start systemContent userContent
  step c turn := if c.ended then none else some (round env c turn)

end Generate

end Provider
