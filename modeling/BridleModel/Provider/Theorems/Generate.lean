import BridleModel.Provider.Generate

namespace Provider

variable {env : Env} {c c' : Conversation} {message : Message} {messages tools : List Message} {n : Nat}

section View

-- The messages with the first `n` of them read
def view (env : Env) (n : Nat) (messages : List Message) : List Message :=
  (messages.take n).map (·.receipt env) ++ messages.drop n

@[simp]
theorem isTool_receipt : (message.receipt env).isTool = message.isTool := by
  cases message <;> rfl

@[simp]
theorem toolCalls_receipt : (message.receipt env).toolCalls = message.toolCalls := by
  cases message <;> rfl

@[simp]
theorem toolCallId_receipt : (message.receipt env).toolCallId = message.toolCallId := by
  cases message <;> rfl

theorem receipt_of_not_isTool (h : message.isTool = false) : message.receipt env = message := by
  cases message with
  | tool => cases h
  | _    => rfl

theorem isTool_eq_isSome : message.isTool = message.toolCallId.isSome := by
  cases message <;> rfl

theorem isTool_of_toolCalls (h : message.toolCalls ≠ []) : message.isTool = false := by
  cases message with
  | tool => exact absurd rfl h
  | _    => rfl

@[simp]
theorem view_zero : view env 0 messages = messages :=
  rfl

@[simp]
theorem view_nil : view env n [] = [] := by
  simp [view]

@[simp]
theorem view_succ : view env (n + 1) (message :: messages) = message.receipt env :: view env n messages :=
  rfl

@[simp]
theorem length_view : (view env n messages).length = messages.length := by
  simp only [view, List.length_append, List.length_map, List.length_take, List.length_drop]
  omega

theorem view_append : view env n (messages ++ tools) = view env n messages ++ view env (n - messages.length) tools := by
  induction messages generalizing n
  case nil          => simp
  case cons m ms hi =>
    cases n with
    | zero   => simp
    | succ n => simp [hi]

theorem view_append_of_le (h : n ≤ messages.length) : view env n (messages ++ tools) = view env n messages ++ tools := by
  rw [view_append, Nat.sub_eq_zero_of_le h, view_zero]

theorem map_toolCallId_view : (view env n messages).map Message.toolCallId = messages.map Message.toolCallId := by
  induction messages generalizing n
  case nil          => simp
  case cons m ms hi =>
    cases n with
    | zero   => rfl
    | succ n => simp [hi]

theorem getElem?_view {i : Nat} :
    (view env n messages)[i]? = messages[i]?.map fun m => if i < n then m.receipt env else m := by
  induction messages generalizing n i
  case nil          => simp
  case cons m ms hi =>
    cases n with
    | zero   => simp
    | succ n =>
      cases i with
      | zero   => simp
      | succ i => simp [hi]

end View

section Paired

-- The messages of a conversation: every round of tool calls has one tool message for each call, in the order and with
-- the ids of the calls.
inductive Paired : List Message → Prop
  | nil : Paired []
  | plain {m : Message} {ms : List Message} (calls : m.toolCalls = []) (tool : m.isTool = false) (rest : Paired ms) :
      Paired (m :: ms)
  | round {m : Message} {ts ms : List Message} (ids : ts.map Message.toolCallId = m.toolCalls.map (some ·.id))
      (calls : m.toolCalls ≠ []) (rest : Paired ms) : Paired (m :: (ts ++ ms))

theorem Paired.append (h : Paired messages) (ht : Paired tools) : Paired (messages ++ tools) := by
  induction h with
  | nil                       => exact ht
  | plain calls tool _ hi     => exact .plain calls tool hi
  | round ids calls _ hi      =>
    rw [List.cons_append, List.append_assoc]
    exact .round ids calls hi

theorem Paired.view (h : Paired messages) : Paired (view env n messages) := by
  induction h generalizing n with
  | nil                                     => simpa using .nil
  | @plain message messages calls tool rest hi =>
    cases n with
    | zero   => exact .plain calls tool rest
    | succ n => exact .plain (by simpa using calls) (by simpa using tool) hi
  | @round message tools messages ids calls rest hi =>
    cases n with
    | zero   => exact .round ids calls rest
    | succ n =>
      rw [view_succ, view_append]
      exact .round (by rw [map_toolCallId_view, toolCalls_receipt, ids]) (by simpa using calls) hi

theorem Paired.head (h : Paired messages) : ∀ next ∈ messages.head?, next.isTool = false := by
  cases h with
  | nil                => simp
  | plain calls tool _ => simpa using tool
  | round ids calls _  => simpa using isTool_of_toolCalls calls

theorem Paired.split {pre post : List Message} (h : Paired messages) (hs : messages = pre ++ message :: post)
    (hc : message.toolCalls ≠ []) :
    ∃ tools rest, post = tools ++ rest ∧ tools.map Message.toolCallId = message.toolCalls.map (some ·.id) ∧
      ∀ next ∈ rest.head?, next.isTool = false := by
  induction h generalizing pre with
  | nil                        => simp at hs
  | plain calls tool rest hi   =>
    cases pre with
    | nil         =>
      cases hs
      exact absurd calls hc
    | cons _ pre  =>
      cases hs
      exact hi rfl
  | @round m tools messages ids calls rest hi =>
    cases pre with
    | nil         =>
      cases hs
      exact ⟨tools, messages, rfl, ids, rest.head⟩
    | cons _ pre  =>
      obtain ⟨_, hs⟩ := List.cons.inj hs
      cases List.append_eq_append_iff.mp hs with
      | inl h =>
        obtain ⟨pre, rfl, hm⟩ := h
        exact hi hm
      | inr h =>
        obtain ⟨mid, ht, hm⟩ := h
        cases mid with
        | nil          => exact hi (show messages = [] ++ message :: post from hm.symm)
        | cons _ mid   =>
          -- A message with calls is no tool message.
          obtain ⟨rfl, _⟩ := List.cons.inj hm
          have hid : message.toolCallId ∈ m.toolCalls.map (some ·.id) := by
            rw [← ids, ht]
            simp
          obtain ⟨call, _, hcall⟩ := List.mem_map.mp hid
          have htool := isTool_of_toolCalls hc
          rw [isTool_eq_isSome, ← hcall] at htool
          cases htool

end Paired

section Shown

variable {requests : List (List Message)} {request : List Message}

-- As many of the first messages as the last request had
def seen (requests : List (List Message)) : Nat :=
  (requests.getLast?.map List.length).getD 0

@[simp]
theorem seen_nil : seen [] = 0 :=
  rfl

@[simp]
theorem seen_concat : seen (requests ++ [request]) = request.length := by
  simp [seen]

-- What was sent: every message up to the last one of the request before as its receipt, and all others as they were
-- appended.
structure Shown (env : Env) (requests : List (List Message)) (produced : List Message) : Prop where
  paired  : ∀ request ∈ requests, Paired request
  bound   : ∀ request ∈ requests, request.length ≤ produced.length
  grows   : requests.Pairwise (·.length ≤ ·.length)
  content : ∀ k request, requests[k]? = some request →
    request = view env (seen (requests.take k)) (produced.take request.length)

theorem Shown.append {produced : List Message} (h : Shown env requests produced) : Shown env requests (produced ++ tools) where
  paired           := h.paired
  bound request hm := by
    rw [List.length_append]
    exact Nat.le_add_right_of_le (h.bound request hm)
  grows            := h.grows
  content k request hk := by
    rw [List.take_append_of_le_length (h.bound request (List.mem_of_getElem? hk))]
    exact h.content k request hk

theorem Shown.seen_le {produced : List Message} (h : Shown env requests produced) : seen requests ≤ produced.length := by
  cases hl : requests.getLast? with
  | none         => simp [seen, hl]
  | some request => simpa [seen, hl] using h.bound request (List.mem_of_getLast? hl)

theorem le_seen (h : requests.Pairwise (·.length ≤ ·.length)) (hm : request ∈ requests) :
    request.length ≤ seen requests := by
  cases requests using List.reverseRecOn with
  | nil              => cases hm
  | append_singleton requests last =>
    rw [seen_concat]
    cases List.mem_append.mp hm with
    | inl hm => exact (List.pairwise_append.mp h).right.right _ hm _ (List.mem_singleton_self last)
    | inr hm => exact Nat.le_of_eq (congrArg List.length (List.mem_singleton.mp hm))

-- A request of all messages, as they stand
theorem Shown.send {produced : List Message} (h : Shown env requests produced) (hp : Paired produced) :
    Shown env (requests ++ [view env (seen requests) produced]) produced where
  paired request hm    := by
    cases List.mem_append.mp hm with
    | inl hm => exact h.paired request hm
    | inr hm => exact List.mem_singleton.mp hm ▸ hp.view
  bound request hm     := by
    cases List.mem_append.mp hm with
    | inl hm => exact h.bound request hm
    | inr hm => simp [List.mem_singleton.mp hm]
  grows                := by
    refine List.pairwise_append.mpr ⟨h.grows, List.pairwise_singleton _ _, fun request hm last hl => ?_⟩
    rw [List.mem_singleton.mp hl, length_view]
    exact h.bound request hm
  content k request hk := by
    by_cases hl : k < requests.length
    case pos =>
      rw [List.getElem?_append_left hl] at hk
      rw [List.take_append_of_le_length (Nat.le_of_lt hl)]
      exact h.content k request hk
    case neg =>
      rw [List.getElem?_append_right (Nat.not_lt.mp hl)] at hk
      obtain ⟨hz, rfl⟩ : k - requests.length = 0 ∧ view env (seen requests) produced = request := by
        rwa [List.getElem?_singleton, Option.ite_none_right_eq_some, Option.some.injEq] at hk
      rw [length_view, List.take_length, List.take_append_of_le_length (by omega), List.take_of_length_le (by omega)]

end Shown

section Run

-- What a conversation keeps while it goes on
structure Live (env : Env) (c : Conversation) : Prop where
  paired   : Paired c.produced
  messages : c.messages = view env (seen c.requests) c.produced
  consumed : ∀ i, i ∈ c.consumed ↔ i < seen c.requests ∧ c.produced[i]?.any Message.isTool

structure Kept (env : Env) (c : Conversation) : Prop where
  shown : Shown env c.requests c.produced
  live  : c.ended = false → Live env c

-- `c'` is `c` with these messages at its end.
structure Extends (c c' : Conversation) (added : List Message) : Prop where
  messages : c'.messages = c.messages ++ added
  produced : c'.produced = c.produced ++ added
  requests : c'.requests = c.requests
  consumed : c'.consumed = c.consumed

theorem Extends.refl : Extends c c [] :=
  ⟨(List.append_nil _).symm, (List.append_nil _).symm, rfl, rfl⟩

theorem Extends.trans {c'' : Conversation} (h : Extends c c' messages) (h' : Extends c' c'' tools) :
    Extends c c'' (messages ++ tools) where
  messages := by rw [h'.messages, h.messages, List.append_assoc]
  produced := by rw [h'.produced, h.produced, List.append_assoc]
  requests := h'.requests.trans h.requests
  consumed := h'.consumed.trans h.consumed

theorem extends_append : Extends c (c.append message) [message] :=
  ⟨rfl, rfl, rfl, rfl⟩

theorem Extends.stop (h : Extends c c' messages) : Extends c c'.stop messages :=
  ⟨h.messages, h.produced, h.requests, h.consumed⟩

theorem Extends.shown (h : Extends c c' messages) (hs : Shown env c.requests c.produced) :
    Shown env c'.requests c'.produced := by
  rw [h.requests, h.produced]
  exact hs.append

theorem Extends.live (h : Extends c c' messages) (hs : Shown env c.requests c.produced) (hl : Live env c)
    (hp : Paired messages) : Live env c' where
  paired     := h.produced ▸ hl.paired.append hp
  messages   := by rw [h.messages, h.produced, h.requests, view_append_of_le hs.seen_le, hl.messages]
  consumed i := by
    rw [h.consumed, h.requests, h.produced, hl.consumed]
    refine and_congr_right fun hi => ?_
    rw [List.getElem?_append_left (Nat.lt_of_lt_of_le hi hs.seen_le)]

@[simp]
theorem send_messages : c.send.messages = c.messages :=
  rfl

@[simp]
theorem send_consumed : c.send.consumed = c.consumed :=
  rfl

theorem Extends.kept (h : Extends c c' messages) (hs : Shown env c.requests c.produced) (hl : Live env c)
    (hp : c'.ended = false → Paired messages) : Kept env c' :=
  ⟨h.shown hs, fun he => h.live hs hl (hp he)⟩

theorem live_send_consume (hs : Shown env c.requests c.produced) (hl : Live env c) :
    Shown env (c.send.consume env).requests (c.send.consume env).produced ∧ Live env (c.send.consume env) := by
  have hlen : c.messages.length = c.produced.length := by rw [hl.messages, length_view]
  have hseen : seen (c.send.consume env).requests = c.produced.length := by
    rw [← hlen]
    exact seen_concat
  refine ⟨?shown, hl.paired, ?messages, ?consumed⟩
  case shown    =>
    have h := hs.send hl.paired
    rw [← hl.messages] at h
    exact h
  case messages =>
    rw [hseen]
    refine List.ext_getElem? fun i => ?_
    change (c.messages.mapIdx _)[i]? = (view env c.produced.length c.produced)[i]?
    rw [List.getElem?_mapIdx, hl.messages, getElem?_view, getElem?_view, Option.map_map]
    refine Option.map_congr fun message hm => ?_
    rw [if_pos (List.getElem?_eq_some_iff.mp hm).choose]
    have hc := hl.consumed i
    rw [hm, Option.any_some] at hc
    -- A message of the last request is its receipt already.
    by_cases ht : message.isTool
    case neg =>
      have hr : message.receipt env = message := receipt_of_not_isTool (by simpa using ht)
      simp [hr, ht]
    case pos =>
      by_cases hi : i < seen c.requests
      case pos => simp [hi, hc.mpr ⟨hi, ht⟩]
      case neg =>
        have hn : i ∉ c.consumed := fun h => hi (hc.mp h).left
        simp [hi, ht, hn]
  case consumed =>
    intro i
    rw [hseen]
    change i ∈ c.consumed ++ _ ↔ i < c.produced.length ∧ c.produced[i]?.any Message.isTool
    have hany : c.messages[i]?.any Message.isTool = c.produced[i]?.any Message.isTool := by
      rw [hl.messages, getElem?_view]
      cases c.produced[i]? with
      | none   => rfl
      | some m => simp only [Option.map_some, Option.any_some]; split <;> simp
    have hle := hs.seen_le
    change i ∈ c.consumed ++ (List.range c.messages.length).filter _ ↔ _
    rw [List.mem_append, List.mem_filter, List.mem_range, send_messages, send_consumed, hlen, hany]
    have hc := hl.consumed i
    grind

theorem runCall_extends {call : ToolCall} {turn : CallTurn} (h : runCall env c call turn = some c') :
    (∃ content, Extends c c' [.tool call.id call.name content]) ∧ c'.ended = c.ended := by
  rw [runCall] at h
  obtain ⟨_, h⟩ := Option.ite_none_left_eq_some.mp h
  obtain ⟨args, _, h⟩ := Option.bind_eq_some_iff.mp h
  split at h
  case h_1 =>
    cases h
    exact ⟨⟨_, extends_append⟩, rfl⟩
  case h_2 =>
    obtain ⟨result, _, h⟩ := Option.bind_eq_some_iff.mp h
    cases h
    exact ⟨⟨_, rfl, rfl, rfl, rfl⟩, rfl⟩

theorem runCalls_extends (env : Env) (calls : List ToolCall) (turn : Nat → CallTurn) (h : c.ended = false) :
    ∃ added, Extends c (runCalls env c calls turn) added ∧
      ((runCalls env c calls turn).ended = false → added.map Message.toolCallId = calls.map (some ·.id)) := by
  induction calls generalizing c turn
  case nil               => exact ⟨[], .refl, fun _ => rfl⟩
  case cons call calls hi =>
    rw [runCalls]
    cases hr : runCall env c call (turn 0) with
    | none    => exact ⟨[], .stop .refl, fun h => Bool.noConfusion h⟩
    | some c' =>
      obtain ⟨⟨content, hc⟩, he⟩ := runCall_extends hr
      obtain ⟨added, ha, hids⟩ := hi (fun i => turn (i + 1)) (he.trans h)
      exact ⟨_, hc.trans ha, fun h => by rw [List.map_append, hids h]; rfl⟩

theorem kept_start {systemContent userContent : String} : Kept env (.start systemContent userContent) where
  shown  := ⟨by simp [Conversation.start], by simp [Conversation.start], List.Pairwise.nil, by simp [Conversation.start]⟩
  live _ := ⟨.plain rfl rfl (.plain rfl rfl .nil), rfl, by simp [Conversation.start]⟩

theorem Kept.round {turn : Turn} (h : Kept env c) (hc : c.ended = false) : Kept env (Provider.round env c turn) := by
  obtain ⟨hs, hl⟩ := h
  have hl := hl hc
  rw [Provider.round]
  by_cases he : turn.exhausted
  case pos =>
    rw [if_pos he]
    exact ⟨hs, fun h => Bool.noConfusion h⟩
  case neg =>
    rw [if_neg he]
    obtain ⟨hs', hl'⟩ := live_send_consume hs hl
    cases hr : turn.response with
    | none         => exact ⟨hs', fun h => Bool.noConfusion h⟩
    | some message =>
      dsimp only
      by_cases hcalls : message.toolCalls ≠ []
      case pos =>
        rw [if_pos hcalls]
        have hc' : ((c.send.consume env).append (assistantToolRoundMessage message)).ended = false := hc
        obtain ⟨added, ha, hids⟩ := runCalls_extends env message.toolCalls turn.calls hc'
        refine (extends_append.trans ha).kept hs' hl' fun h => ?_
        have hp : Paired (assistantToolRoundMessage message :: (added ++ [])) := .round (hids h) hcalls .nil
        rwa [List.append_nil] at hp
      case neg =>
        rw [if_neg hcalls]
        have hplain : ∀ content text, Paired [.assistant content [] none, .user text] :=
          fun _ _ => .plain rfl rfl (.plain rfl rfl .nil)
        by_cases ht : Python.strip (message.content.getD "") ≠ ""
        case pos =>
          rw [if_pos ht]
          cases env.parse (message.content.getD "") with
          | some error => exact (extends_append.trans extends_append).kept hs' hl' fun _ => hplain _ _
          | none       => exact ⟨hs', fun h => Bool.noConfusion h⟩
        case neg =>
          rw [if_neg ht]
          exact (extends_append.trans extends_append).kept hs' hl' fun _ => hplain _ _

theorem Kept.step {turn : Turn} (h : Kept env c) (hs : (generateSystem env).step c turn = some c') : Kept env c' := by
  obtain ⟨he, hs⟩ := Option.ite_none_left_eq_some.mp hs
  cases hs
  exact h.round (by simpa using he)

theorem round_requests (env : Env) (turn : Turn) (h : c.ended = false) :
    (round env c turn).requests = c.requests ∨ (round env c turn).requests = c.requests ++ [c.messages] := by
  rw [round]
  split
  case isTrue  => exact .inl rfl
  case isFalse =>
    refine .inr ?_
    split
    case h_1           => rfl
    case h_2 message _ =>
      dsimp only
      split
      case isTrue  =>
        have hc : ((c.send.consume env).append (assistantToolRoundMessage message)).ended = false := h
        obtain ⟨_, ha, _⟩ := runCalls_extends env message.toolCalls turn.calls hc
        exact ha.requests
      case isFalse =>
        split
        case isTrue  => split <;> rfl
        case isFalse => rfl

-- What is promised of the requests of a conversation: calls and their results stand together; a result is shown in
-- full by the first request with it and as its receipt by every later one; nothing else changes or is left out.
structure ShownOnce (env : Env) (c : Conversation) : Prop where
  paired  : ∀ request ∈ c.requests, ∀ pre content calls reasoning post,
    request = pre ++ .assistant content calls reasoning :: post → calls ≠ [] → ∃ tools rest, post = tools ++ rest ∧
      tools.map Message.toolCallId = calls.map (some ·.id) ∧ ∀ next ∈ rest.head?, next.isTool = false
  once    : ∀ k request i, c.requests[k]? = some request → i < request.length → ∃ message, c.produced[i]? = some message ∧
    request[i]? = some (if ∃ earlier ∈ c.requests.take k, i < earlier.length then message.receipt env else message)
  inOrder : c.requests.Pairwise (·.length ≤ ·.length)
  sent    : ∀ turn c' request, (generateSystem env).step c turn = some c' → c'.requests = c.requests ++ [request] →
    request.length = c.produced.length

theorem Shown.once {requests : List (List Message)} {produced request : List Message} (h : Shown env requests produced)
    {k i : Nat} (hk : requests[k]? = some request) (hi : i < request.length) : ∃ message, produced[i]? = some message ∧
      request[i]? = some (if ∃ earlier ∈ requests.take k, i < earlier.length then message.receipt env else message) := by
  have hle := h.bound request (List.mem_of_getElem? hk)
  obtain ⟨message, hm⟩ : ∃ message, produced[i]? = some message := ⟨_, List.getElem?_eq_getElem (by omega)⟩
  refine ⟨message, hm, ?_⟩
  have hseen : i < seen (requests.take k) ↔ ∃ earlier ∈ requests.take k, i < earlier.length := by
    constructor
    case mp  =>
      intro hi
      cases hl : (requests.take k).getLast? with
      | none         => simp [seen, hl] at hi
      | some earlier => exact ⟨earlier, List.mem_of_getLast? hl, by simpa [seen, hl] using hi⟩
    case mpr =>
      intro ⟨earlier, he, hi⟩
      exact Nat.lt_of_lt_of_le hi (le_seen (h.grows.sublist (List.take_sublist k requests)) he)
  rw [h.content k request hk, getElem?_view, List.getElem?_take_of_lt hi, hm, Option.map_some]
  simp only [hseen]

def completedResult : Json.Dict :=
  [
    ("status", .str "completed"), ("attempts", .num 1), ("consecutive_failures", .num 0), ("last_error_code", .null),
    ("last_retryable", .null)
  ]

-- An interpreter for one call without arguments whose result is `completedResult`
def sampleEnv : Env where
  conversions     := ⟨fun _ => "", String.toInt?⟩
  loads text      := some (.obj (if text = "\x7b\x7d" then [] else completedResult))
  dumps _         := "\x7b\"status\": \"completed\", \"attempts\": 1, \"consecutive_failures\": 0, " ++
    "\"last_error_code\": null, \"last_retryable\": null\x7d"
  argsHash _      := "44136fa3"
  parse _         := none
  nonRetryableMax := 1
  retryableMax    := 2
  timeoutMax      := 2
  testCommandMax  := 5

def sampleTurns : List Turn :=
  [
    ⟨false, some ⟨none, none, [⟨.str "call-1", "run_command", .text "\x7b\x7d"⟩]⟩,
      fun _ => ⟨false, some [("status", .str "completed")]⟩⟩,
    ⟨false, some ⟨none, none, []⟩, fun _ => ⟨false, none⟩⟩
  ]

end Run

end Provider
