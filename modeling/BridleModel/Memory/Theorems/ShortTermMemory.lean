import BridleModel.Memory.ShortTermMemory

namespace Memory

open Python

variable {m : ShortTermMemory} {s t : Session} {messages prior : List Message} {answer : Option (List Char)}
variable {label : List Message × Option (List Char)} {labels : List (List Message × Option (List Char))}
variable {summary : List Char} {anchor : Option String}

section Append

theorem length_stripChars_le {text : List Char} : (stripChars text).length ≤ text.length :=
  ((List.rdropWhile_prefix _ _).length_le).trans (List.dropWhile_suffix _).length_le

theorem length_boundSummary_le : (m.boundSummary summary).length ≤ m.budget := by
  simp only [ShortTermMemory.boundSummary, List.length_drop]
  omega

theorem boundSummary_of_le (h : summary.length ≤ m.budget) : m.boundSummary summary = stripChars summary := by
  have hle : (stripChars summary).length ≤ summary.length := length_stripChars_le
  rw [ShortTermMemory.boundSummary, Nat.sub_eq_zero_of_le (hle.trans h), List.drop_zero]

@[simp]
theorem budget_append : (m.append messages answer).budget = m.budget := by
  unfold ShortTermMemory.append
  dsimp only
  split
  case isTrue  => rfl
  case isFalse => split <;> rfl

@[simp]
theorem recentWindow_append : (m.append messages answer).recentWindow = m.recentWindow := by
  unfold ShortTermMemory.append
  dsimp only
  split
  case isTrue  => rfl
  case isFalse => split <;> rfl

-- What leaves the window comes first.
theorem evictedBy_append : m.evictedBy messages ++ (m.append messages answer).messages = m.messages ++ messages := by
  unfold ShortTermMemory.evictedBy ShortTermMemory.append
  dsimp only
  split
  case isTrue  => rfl
  case isFalse =>
    split
    case isTrue hz => rw [hz, List.take_zero, List.nil_append]
    case isFalse   => exact List.take_append_drop _ _

-- The window is small in size or in number.
theorem append_small : ShortTermMemory.estimateSize (m.append messages answer).messages ≤ m.budget ∨
    (m.append messages answer).messages.length ≤ m.recentWindow := by
  unfold ShortTermMemory.append
  dsimp only
  split
  case isTrue h => exact .inl h
  case isFalse  =>
    right
    split
    case isTrue hz => exact Nat.sub_eq_zero_iff_le.mp hz
    case isFalse   =>
      rw [List.length_drop]
      omega

theorem append_anchor : (m.append messages answer).anchorMessageId =
    ((m.evictedBy messages).getLast?.bind Message.id).or m.anchorMessageId := by
  unfold ShortTermMemory.evictedBy ShortTermMemory.append
  dsimp only
  split
  case isTrue  => rfl
  case isFalse =>
    split
    case isTrue hz => rw [hz, List.take_zero, List.getLast?_nil, Option.bind_none, Option.none_or]
    case isFalse   => rfl

theorem append_summary (h : m.summary.length ≤ m.budget) : (m.append messages answer).summary.length ≤ m.budget := by
  unfold ShortTermMemory.append
  dsimp only
  split
  case isTrue  => exact h
  case isFalse =>
    split
    case isTrue  => exact h
    case isFalse => exact length_boundSummary_le

end Append

section Session

-- Every message is in the window, or was handed to the summary, once and in order.
structure Kept (s : Session) : Prop where
  messages : s.evicted.flatten ++ s.memory.messages = s.appended
  summary  : s.memory.summary.length ≤ s.memory.budget

theorem Kept.append (h : Kept s) : Kept (s.append messages answer) where
  messages := by
    rw [Session.append, List.flatten_append, List.flatten_singleton, List.append_assoc, evictedBy_append,
      ← List.append_assoc, h.messages]
  summary  := by
    rw [Session.append, budget_append]
    exact append_summary h.summary

theorem session_kept (hr : sessionSystem.run ⟨m.restore summary messages anchor, messages, []⟩ labels = some s) :
    Kept s := by
  refine TransitionSystem.run_preserves (I := Kept) (fun hk hs => ?_) ?_ hr
  · cases hs
    exact hk.append
  · exact { messages := rfl, summary := length_boundSummary_le }

theorem session_appended (hr : sessionSystem.run ⟨m.restore summary messages anchor, messages, []⟩ labels = some s) :
    s.appended = messages ++ labels.flatMap Prod.fst := by
  refine TransitionSystem.run_induction (I := fun labels s => s.appended = messages ++ labels.flatMap Prod.fst) ?_ ?_ hr
  · simp
  · intro labels label s₁ s₂ _ hs hstep
    cases hstep
    simp [Session.append, hs]

-- `list_messages_after`
def after (anchor : Option String) (messages : List Message) : List Message :=
  match anchor with
  | none   => messages
  | some a => (messages.dropWhile (·.id ≠ some a)).tail

-- All messages of a session in order, each with an id of its own
def Distinct (messages : List Message) : Prop :=
  (messages.map Message.id).Nodup ∧ ∀ message ∈ messages, message.id ≠ none

theorem after_append {left right : List Message} (h : Distinct (left ++ right)) :
    after (left.getLast?.bind Message.id) (left ++ right) = right := by
  cases List.eq_nil_or_concat left with
  | inl hl =>
    rw [hl]
    rfl
  | inr hl =>
    have ⟨before, last, hl⟩ := hl
    rw [List.concat_eq_append] at hl
    subst hl
    have ⟨a, ha⟩ := Option.ne_none_iff_exists'.mp (h.right last (by simp))
    have hbefore : ∀ message ∈ before, decide (message.id ≠ some a) = true := by
      intro message hm
      have hnodup := h.left
      rw [List.append_assoc, List.map_append] at hnodup
      have hne := (List.nodup_append.mp hnodup).right.right _ (List.mem_map_of_mem hm) last.id (by simp)
      simpa [ha] using hne
    simp only [List.getLast?_concat, Option.bind_some, ha, after]
    rw [List.append_assoc, List.dropWhile_append_of_pos hbefore]
    simp [ha]

-- The anchor is the last message that has left the window.
def Anchored (prior : List Message) (s : Session) : Prop :=
  s.memory.anchorMessageId = (prior ++ s.evicted.flatten).getLast?.bind Message.id

theorem Anchored.append (h : Anchored prior s) (hd : ∀ message ∈ s.memory.messages ++ messages, message.id ≠ none) :
    Anchored prior (s.append messages answer) := by
  rw [Anchored, Session.append, append_anchor, List.flatten_append, List.flatten_singleton, ← List.append_assoc,
    List.getLast?_append]
  cases hl : (s.memory.evictedBy messages).getLast? with
  | none      => exact (Option.none_or).trans h
  | some last =>
    have hmem : last ∈ s.memory.messages ++ messages := by
      have hkept : s.memory.evictedBy messages ++ (s.memory.append messages none).messages = s.memory.messages ++ messages :=
        evictedBy_append
      exact hkept ▸ List.mem_append_left _ (List.mem_of_getLast? hl)
    have ⟨a, ha⟩ := Option.ne_none_iff_exists'.mp (hd last hmem)
    simp [ha]

theorem session_anchored (hd : Distinct (prior ++ messages ++ labels.flatMap Prod.fst))
    (ha : anchor = prior.getLast?.bind Message.id)
    (hr : sessionSystem.run ⟨m.restore summary messages anchor, messages, []⟩ labels = some s) : Anchored prior s := by
  refine TransitionSystem.run_induction (I := fun labels s =>
    (∀ message ∈ messages ++ labels.flatMap Prod.fst, message.id ≠ none) → Anchored prior s) ?_ ?_ hr ?_
  · intro _
    simpa [Anchored, ShortTermMemory.restore] using ha
  · intro labels label s₁ s₂ hrun hs hstep hids
    cases hstep
    have hkept := (session_kept hrun).messages
    rw [session_appended hrun] at hkept
    refine (hs fun message hm => hids message ?_).append fun message hm => hids message ?_
    · rw [List.flatMap_append, ← List.append_assoc]
      exact List.mem_append_left _ hm
    · rw [List.flatMap_append, List.flatMap_singleton, ← List.append_assoc, ← hkept]
      simp only [List.mem_append] at hm ⊢
      exact hm.imp_left .inr
  · intro message hm
    rw [List.append_assoc] at hd
    exact hd.right message (List.mem_append_right _ hm)

def sampleMessages : List Message :=
  [⟨some "1", "user".toList, "one".toList⟩, ⟨some "2", "assistant".toList, "two".toList⟩]

end Session

end Memory
