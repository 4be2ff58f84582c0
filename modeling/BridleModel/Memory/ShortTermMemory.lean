import Mathlib.Algebra.Ring.Nat
import BridleModel.Library.Execution
import BridleModel.Python.Lines

-- The sliding window over the messages of a session, with a summary of those that have left it.
namespace Memory

open Python

-- The texts of a message's fields; an id that is missing or empty is `none`.
structure Message where
  id      : Option String
  role    : List Char
  content : List Char
deriving DecidableEq, Repr

structure ShortTermMemory where
  budget          : Nat
  recentWindow    : Nat
  summary         : List Char
  messages        : List Message
  anchorMessageId : Option String
deriving DecidableEq, Repr

namespace ShortTermMemory

variable (m : ShortTermMemory)

-- `_bound_summary`
def boundSummary (summary : List Char) : List Char :=
  let text := stripChars summary
  text.drop (text.length - m.budget)

-- `__init__`
def create (budget recentWindow : Nat) : ShortTermMemory where
  budget
  recentWindow
  summary         := []
  messages        := []
  anchorMessageId := none

def restore (summary : List Char) (messages : List Message) (anchorMessageId : Option String) : ShortTermMemory :=
  { m with summary := m.boundSummary summary, messages, anchorMessageId }

def estimateSize (messages : List Message) : Nat :=
  (messages.map (·.content.length)).sum

def contentLimit : Nat :=
  240

-- The summary without an optimizer
def fallback (evicted : List Message) : List Char :=
  let parts := (if m.summary = [] then [] else [m.summary]) ++ evicted.filterMap fun message =>
    let content := stripChars message.content
    if content = [] then none else some (message.role ++ [':', ' '] ++ content.take contentLimit)
  [' ', '|', ' '].intercalate parts

-- `_optimize_evicted`, with the answer of the optimizer, or `none` where there is none, or it fails or times out.
def optimizeEvicted (answer : Option (List Char)) (evicted : List Message) : List Char :=
  match answer with
  | some text => if stripChars text = [] then m.fallback evicted else stripChars text
  | none      => m.fallback evicted

-- What a call of `append` takes out of the window
def evictedBy (messages : List Message) : List Message :=
  let candidates := m.messages ++ messages
  if estimateSize candidates ≤ m.budget then [] else candidates.take (candidates.length - m.recentWindow)

def append (messages : List Message) (answer : Option (List Char)) : ShortTermMemory :=
  let candidates := m.messages ++ messages
  if estimateSize candidates ≤ m.budget then { m with messages := candidates }
  else
    let evictedCount := candidates.length - m.recentWindow
    if evictedCount = 0 then { m with messages := candidates }
    else
      let evicted := candidates.take evictedCount
      {
        m with
        messages        := candidates.drop evictedCount
        summary         := m.boundSummary (m.optimizeEvicted answer evicted)
        anchorMessageId := (evicted.getLast?.bind Message.id).or m.anchorMessageId
      }

def compactedPrefix : List Char :=
  "[compacted] ".toList

def renderWindow : List Message :=
  (if m.summary = [] then [] else [⟨none, "system".toList, compactedPrefix ++ m.summary⟩]) ++ m.messages

end ShortTermMemory

-- Calls of `append`, one after the other. What was put into the window and what was handed to the summary is kept for the
-- statements only.
structure Session where
  memory   : ShortTermMemory
  appended : List Message
  evicted  : List (List Message)

def Session.append (s : Session) (messages : List Message) (answer : Option (List Char)) : Session where
  memory   := s.memory.append messages answer
  appended := s.appended ++ messages
  evicted  := s.evicted ++ [s.memory.evictedBy messages]

def sessionSystem : TransitionSystem Session (List Message × Option (List Char)) where
  init s       := ∃ m : ShortTermMemory, ∃ summary messages anchor,
    s = ⟨m.restore summary messages anchor, messages, []⟩
  step s label := some (s.append label.fst label.snd)

end Memory
