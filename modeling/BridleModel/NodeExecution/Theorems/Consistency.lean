import BridleModel.NodeExecution.Store

namespace NodeExecution

-- `node_executions` and `wait_signals` tell the same about an execution.
structure Agrees (e : ExecutionRow) (w : WaitRow) : Prop where
  executionId : e.executionId = w.executionId
  waitId      : e.waitId = w.waitId
  nodeId      : e.nodeId = w.nodeId
  progress    : e.toProgress = w.toProgress

-- The outbox row tells how the execution has ended.
structure Reports (n : Notification) (e : ExecutionRow) (w : WaitRow) : Prop where
  ended        : w.state = .ended
  waitId       : n.waitId = w.waitId
  executionId  : n.executionId = e.executionId
  ownerAddress : n.ownerAddress = e.ownerAddress
  messageId    : n.messageId = NodeExecution.messageId w.waitId
  payload      : ∃ o, w.outcome = some o ∧ n.payload = NodeExecution.payload (Db.record (w, e)) o w.resultRef

structure Db.Consistent (db : Db) : Prop where
  wait         : w ∈ db.waits → ∃ e ∈ db.executions, Agrees e w
  execution    : e ∈ db.executions → ∃ w ∈ db.waits, Agrees e w
  notification : c ∈ db.completions →
    ∃ w ∈ db.waits, ∃ e ∈ db.executions, Agrees e w ∧ Reports c.toNotification e w
  ended        : w ∈ db.waits → w.state = .ended → ∃ c ∈ db.completions, c.waitId = w.waitId

-- What lasts: waits that have ended, and notifications with the mark that they have been sent.
structure Db.Extends (db db' : Db) : Prop where
  ended        : w ∈ db.waits → w.state = .ended → w ∈ db'.waits
  notification : c ∈ db.completions → ∃ c' ∈ db'.completions,
    c'.toNotification = c.toNotification ∧ (c.state = .sent → c'.state = .sent)

-- What a transaction does to the database.
inductive Db.Effect (db : Db) : Db → Prop
  | none : Effect db db
  | create
      (executions : db.executions.insert?
        ⟨.queued, executionId, waitId, nodeId, ownerAddress⟩ = some executions')
      (waits : db.waits.insert? ⟨.queued, waitId, executionId, nodeId⟩ = some waits') :
      Effect db { db with executions := executions', waits := waits' }
  | complete (wait : w ∈ db.waits) (execution : e ∈ db.executions)
      (join : e.executionId = w.executionId) (waiting : w.state = .waiting) :
      Effect db <| (db.finish (record (w, e)) phase outcome resultRef).notify
        (.created (record (w, e)) outcome resultRef now)
  | mark (same : ∀ row, (f row).toNotification = row.toNotification) : Effect db (db.mark m f keys)

section Select

variable {db : Db} {id : String} {current : Execution}

theorem Db.selectWait_eq_some (h : db.selectWait id = some current) :
    ∃ w ∈ db.waits, ∃ e ∈ db.executions,
      w.waitId = id ∧ e.executionId = w.executionId ∧ current = record (w, e) := by
  have ⟨⟨w, e⟩, hf, hc⟩ := Option.map_eq_some_iff.mp h
  have hw : w.waitId = id := by simpa using List.find?_some hf
  have ⟨w', hm, hl⟩ := List.mem_filterMap.mp <| List.mem_of_find?_eq_some hf
  have ⟨e', hl, he⟩ := Option.map_eq_some_iff.mp hl
  cases he
  have ⟨hm', hk⟩ := Table.lookup_eq_some_iff.mp hl
  refine ⟨w, hm, e, hm', hw, ?_, hc.symm⟩
  unfold ExecutionRow.keys at hk
  split at hk <;> simp_all

inductive Db.Creates (db db' : Db) : Prop
  | reused (same : db' = db)
  | fresh
      (executions : db.executions.insert?
        ⟨.queued, executionId, waitId, nodeId, ownerAddress⟩ = some executions')
      (waits : db.waits.insert? ⟨.queued, waitId, executionId, nodeId⟩ = some waits')
      (insert : db' = { db with executions := executions', waits := waits' })

theorem Db.createNodeExecution_creates {nodeId owner executionHex waitHex : String} {db' : Db}
    {record : Execution}
    (h : db.createNodeExecution nodeId owner executionHex waitHex = .ok (db', record)) :
    db.Creates db' := by
  unfold createNodeExecution at h
  split at h
  case h_1 => cases h; exact .reused rfl
  dsimp only at h
  split at h
  case h_2 => cases h
  case h_1 executions waits =>
    split at h
    case h_1 => cases h
    case h_2 => cases h; exact .fresh executions waits rfl

theorem Db.Creates.effect {db' : Db} (h : db.Creates db') : db.Effect db' := by
  cases h with
  | reused same                   => exact same ▸ .none
  | fresh executions waits insert => exact insert ▸ .create executions waits

-- A wait that has ended stays as it is.
inductive Db.Completes (db : Db) (waitId outcome : String) (resultRef : Option String) (db' : Db) :
    Prop
  | again (same : db' = db)
  | first (wait : w ∈ db.waits) (execution : e ∈ db.executions) (waiting : w.state = .waiting)
      (id : w.waitId = waitId) (join : e.executionId = w.executionId)
      (outcome : Outcome.ofValue outcome = some o)
      (finish : db' = (db.finish (record (w, e)) phase o resultRef).notify
        (.created (record (w, e)) o resultRef now))

theorem Db.completeExecution_completes {waitId outcome : String} {resultRef phase : Option String}
    {now : String} {db' : Db} {record : Execution}
    (h : db.completeExecution waitId outcome resultRef phase now = .ok (db', record)) :
    db.Completes waitId outcome resultRef db' := by
  unfold completeExecution at h
  split at h
  case h_1 => cases h
  case h_2 outcome =>
    split at h
    case h_1 => cases h
    case h_2 hc =>
      have ⟨w, wait, e, execution, id, join, hr⟩ := selectWait_eq_some hc
      subst hr
      split at h
      case isTrue =>
        split at h
        case isTrue  => cases h
        case isFalse => cases h; exact .again rfl
      case isFalse hs =>
        have waiting : w.state = .waiting := by
          cases hw : w.state with
          | waiting => rfl
          | ended   => exact absurd hw hs
        dsimp only at h
        split at h
        case h_1 => cases h
        case h_2 => cases h; exact .first wait execution waiting id join outcome rfl

theorem Db.Completes.effect {waitId outcome : String} {resultRef : Option String} {db' : Db}
    (h : db.Completes waitId outcome resultRef db') : db.Effect db' := by
  cases h with
  | again same => exact same ▸ .none
  | first wait execution waiting _ join _ finish => exact finish ▸ .complete wait execution join waiting

end Select

section Keys

variable {db : Db} {e e' : ExecutionRow} {w w' : WaitRow} {c c' : CompletionRow}

theorem ExecutionRow.id_mem_keys : .id e.executionId ∈ e.keys := by
  unfold keys
  split <;> simp

theorem ExecutionRow.wait_mem_keys : .wait e.waitId ∈ e.keys := by
  unfold keys
  split <;> simp

theorem ExecutionRow.active_mem_keys (h : e.state = .waiting) : .active e.nodeId ∈ e.keys := by
  simp [keys, h]

theorem ExecutionRow.eq_of_id (h : e ∈ db.executions) (h' : e' ∈ db.executions)
    (hi : e.executionId = e'.executionId) : e = e' :=
  Table.eq_of_mem_keys h h' id_mem_keys (hi ▸ id_mem_keys)

theorem ExecutionRow.eq_of_wait (h : e ∈ db.executions) (h' : e' ∈ db.executions)
    (hw : e.waitId = e'.waitId) : e = e' :=
  Table.eq_of_mem_keys h h' wait_mem_keys (hw ▸ wait_mem_keys)

theorem ExecutionRow.eq_of_active (h : e ∈ db.executions) (h' : e' ∈ db.executions)
    (he : e.state = .waiting) (he' : e'.state = .waiting) (hn : e.nodeId = e'.nodeId) : e = e' :=
  Table.eq_of_mem_keys h h' (active_mem_keys he) (hn ▸ active_mem_keys he')

theorem WaitRow.eq_of_id (h : w ∈ db.waits) (h' : w' ∈ db.waits) (hi : w.waitId = w'.waitId) :
    w = w' :=
  Table.eq_of_mem_keys h h' List.mem_cons_self (hi ▸ List.mem_cons_self)

theorem CompletionRow.eq_of_id (h : c ∈ db.completions) (h' : c' ∈ db.completions)
    (hi : c.waitId = c'.waitId) : c = c' :=
  Table.eq_of_mem_keys h h' List.mem_cons_self (hi ▸ List.mem_cons_self)

theorem CompletionRow.message_mem_keys : .message c.messageId ∈ c.keys :=
  List.mem_cons_of_mem _ List.mem_cons_self

theorem CompletionRow.eq_of_message (h : c ∈ db.completions) (h' : c' ∈ db.completions)
    (hm : c.messageId = c'.messageId) : c = c' :=
  Table.eq_of_mem_keys h h' message_mem_keys (hm ▸ message_mem_keys)

theorem messageId_injective {a b : String} (h : messageId a = messageId b) : a = b :=
  (String.append_right_inj "node-workflow-result:").mp h

end Keys

namespace Db

variable {db : Db} {e e₀ : ExecutionRow} {w w₀ : WaitRow} {c : CompletionRow} {phase : String}
  {outcome : Outcome} {resultRef : Option String}

theorem Consistent.agrees (h : db.Consistent) (hw : w ∈ db.waits) (he : e ∈ db.executions)
    (join : e.executionId = w.executionId) : Agrees e w := by
  have ⟨e', he', ha⟩ := h.wait hw
  cases ExecutionRow.eq_of_id he he' (join.trans ha.executionId.symm)
  exact ha

section Finish

-- The rows of one execution end together.
def endExecution (e₀ : ExecutionRow) (phase : String) (outcome : Outcome) (resultRef : Option String)
    (e : ExecutionRow) : ExecutionRow :=
  if e.executionId = e₀.executionId ∧ e.state = .waiting then e.ended phase outcome resultRef else e

def endWait (w₀ : WaitRow) (phase : String) (outcome : Outcome) (resultRef : Option String)
    (w : WaitRow) : WaitRow :=
  if w.waitId = w₀.waitId ∧ w.state = .waiting then w.ended phase outcome resultRef else w

theorem mem_finish_executions : e ∈ (db.finish (record (w₀, e₀)) phase outcome resultRef).executions ↔
    ∃ e' ∈ db.executions, endExecution e₀ phase outcome resultRef e' = e := by
  rw [finish, Table.mem_modify]
  simp only [decide_eq_true_eq]
  rfl

theorem mem_finish_waits : w ∈ (db.finish (record (w₀, e₀)) phase outcome resultRef).waits ↔
    ∃ w' ∈ db.waits, endWait w₀ phase outcome resultRef w' = w := by
  rw [finish, Table.mem_modify]
  simp only [decide_eq_true_eq]
  rfl

theorem endWait_of_ended (h : w.state = .ended) : endWait w₀ phase outcome resultRef w = w := by
  simp [endWait, h]

theorem endExecution_of_ended (h : e.state = .ended) :
    endExecution e₀ phase outcome resultRef e = e := by
  simp [endExecution, h]

theorem endWait_ended (h : (endWait w₀ phase outcome resultRef w).state = .ended) :
    w.state = .ended ∨ (w.waitId = w₀.waitId ∧ w.state = .waiting) := by
  unfold endWait at h
  split at h
  case isTrue hw => exact .inr hw
  case isFalse   => exact .inl h

theorem endWait_self (h : w.state = .waiting) :
    endWait w phase outcome resultRef w = w.ended phase outcome resultRef :=
  if_pos ⟨rfl, h⟩

theorem endExecution_self (h : e.state = .waiting) :
    endExecution e phase outcome resultRef e = e.ended phase outcome resultRef :=
  if_pos ⟨rfl, h⟩

theorem agrees_end (he : e ∈ db.executions) (he₀ : e₀ ∈ db.executions) (ha : Agrees e w)
    (ha₀ : Agrees e₀ w₀) :
    Agrees (endExecution e₀ phase outcome resultRef e) (endWait w₀ phase outcome resultRef w) := by
  have hs : e.state = w.state := congrArg (·.state) ha.progress
  have hid : e.executionId = e₀.executionId ↔ w.waitId = w₀.waitId := by
    constructor
    · intro h
      cases ExecutionRow.eq_of_id he he₀ h
      exact ha.waitId.symm.trans ha₀.waitId
    · intro h
      cases ExecutionRow.eq_of_wait he he₀ (ha.waitId.trans <| h.trans ha₀.waitId.symm)
      rfl
  simp only [endExecution, endWait, hid, hs]
  split
  case isFalse => exact ha
  case isTrue  =>
    exact ⟨ha.executionId, ha.waitId, ha.nodeId, congrArg (·.ended phase outcome resultRef) ha.progress⟩

end Finish

section Consistent

variable {db' : Db} {c' : CompletionRow} {m now : String}

theorem Consistent.unreported (h : db.Consistent) (hw : w ∈ db.waits) (waiting : w.state = .waiting)
    (hc : c ∈ db.completions) : c.waitId ≠ w.waitId ∧ c.messageId ≠ NodeExecution.messageId w.waitId := by
  have ⟨w', hw', _, _, _, hr⟩ := h.notification hc
  have hne : w'.waitId ≠ w.waitId := by
    intro hi
    cases WaitRow.eq_of_id hw' hw hi
    cases waiting.symm.trans hr.ended
  exact ⟨hr.waitId ▸ hne, fun hm => hne <| messageId_injective <| hr.messageId.symm.trans hm⟩

theorem Consistent.insert (h : db.Consistent) (hw : w ∈ db.waits) (waiting : w.state = .waiting) :
    ∃ completions, db.completions.insert? (.created (record (w, e)) outcome resultRef now) =
      some completions := by
  refine Table.insert?_isSome fun k hk => Table.lookup_eq_none_iff.mpr fun c hc hk' => ?_
  have ⟨hi, hm⟩ := h.unreported hw waiting hc
  simp only [CompletionRow.keys, CompletionRow.created, record, List.mem_cons, List.not_mem_nil,
    or_false] at hk hk'
  cases hk with
  | inl hk => simp [hk, Ne.symm hi] at hk'
  | inr hk => simp [hk, Ne.symm hm] at hk'

theorem Consistent.mem_notify (h : db.Consistent) (hw : w ∈ db.waits) (waiting : w.state = .waiting) :
    c ∈ ((db.finish (record (w, e)) phase outcome resultRef).notify
      (.created (record (w, e)) outcome resultRef now)).completions ↔
        c ∈ db.completions ∨ c = .created (record (w, e)) outcome resultRef now := by
  have ⟨completions, hi⟩ := @Consistent.insert db e w outcome resultRef now h hw waiting
  simp only [notify, finish, hi, Option.getD_some]
  exact Table.mem_insert? hi

variable {f : CompletionRow → CompletionRow} {keys : ∀ row, (f row).keys = row.keys}

theorem mem_mark : c ∈ (db.mark m f keys).completions ↔ ∃ c' ∈ db.completions,
    (if c'.waitId = m ∧ c'.state = .pending then f c' else c') = c := by
  rw [mark, Table.mem_modify]
  simp only [decide_eq_true_eq]

theorem init_consistent : init.Consistent where
  wait h         := absurd h Table.not_mem_empty
  execution h    := absurd h Table.not_mem_empty
  notification h := absurd h Table.not_mem_empty
  ended h        := absurd h Table.not_mem_empty

theorem Consistent.create {executionId waitId nodeId ownerAddress : String} {executions' waits'}
    (h : db.Consistent)
    (he : db.executions.insert? ⟨.queued, executionId, waitId, nodeId, ownerAddress⟩ =
      some executions')
    (hw : db.waits.insert? ⟨.queued, waitId, executionId, nodeId⟩ = some waits') :
    ({ db with executions := executions', waits := waits' } : Db).Consistent := by
  have hme {e} : e ∈ executions' ↔ _ := Table.mem_insert? he
  have hmw {w} : w ∈ waits' ↔ _ := Table.mem_insert? hw
  constructor
  case wait =>
    intro w hm
    cases hmw.mp hm with
    | inl hm =>
      have ⟨e, hm', ha⟩ := h.wait hm
      exact ⟨e, hme.mpr (.inl hm'), ha⟩
    | inr hn => exact ⟨_, hme.mpr (.inr rfl), by subst hn; exact ⟨rfl, rfl, rfl, rfl⟩⟩
  case execution =>
    intro e hm
    cases hme.mp hm with
    | inl hm =>
      have ⟨w, hm', ha⟩ := h.execution hm
      exact ⟨w, hmw.mpr (.inl hm'), ha⟩
    | inr hn => exact ⟨_, hmw.mpr (.inr rfl), by subst hn; exact ⟨rfl, rfl, rfl, rfl⟩⟩
  case notification =>
    intro c hc
    have ⟨w, hw, e, he, hr⟩ := h.notification hc
    exact ⟨w, hmw.mpr (.inl hw), e, hme.mpr (.inl he), hr⟩
  case ended =>
    intro w hm hs
    cases hmw.mp hm with
    | inl hm => exact h.ended hm hs
    | inr hn => subst hn; cases hs

theorem Consistent.complete (h : db.Consistent) (hw : w ∈ db.waits) (he : e ∈ db.executions)
    (join : e.executionId = w.executionId) (waiting : w.state = .waiting) :
    ((db.finish (record (w, e)) phase outcome resultRef).notify
      (.created (record (w, e)) outcome resultRef now)).Consistent := by
  have ha : Agrees e w := h.agrees hw he join
  have hs : e.state = .waiting := (congrArg (·.state) ha.progress).trans waiting
  constructor
  case wait =>
    intro w' hm
    have ⟨w₁, hw₁, heq⟩ := mem_finish_waits.mp hm
    have ⟨e₁, he₁, ha₁⟩ := h.wait hw₁
    exact ⟨_, mem_finish_executions.mpr ⟨e₁, he₁, rfl⟩, heq ▸ agrees_end he₁ he ha₁ ha⟩
  case execution =>
    intro e' hm
    have ⟨e₁, he₁, heq⟩ := mem_finish_executions.mp hm
    have ⟨w₁, hw₁, ha₁⟩ := h.execution he₁
    exact ⟨_, mem_finish_waits.mpr ⟨w₁, hw₁, rfl⟩, heq ▸ agrees_end he₁ he ha₁ ha⟩
  case notification =>
    intro c hc
    cases (h.mem_notify hw waiting).mp hc with
    | inl hc =>
      have ⟨w₁, hw₁, e₁, he₁, ha₁, hr⟩ := h.notification hc
      have hs₁ : e₁.state = .ended := (congrArg (·.state) ha₁.progress).trans hr.ended
      exact ⟨w₁, mem_finish_waits.mpr ⟨w₁, hw₁, endWait_of_ended hr.ended⟩, e₁,
        mem_finish_executions.mpr ⟨e₁, he₁, endExecution_of_ended hs₁⟩, ha₁, hr⟩
    | inr hn =>
      subst hn
      refine ⟨_, mem_finish_waits.mpr ⟨w, hw, endWait_self waiting⟩, _,
        mem_finish_executions.mpr ⟨e, he, endExecution_self hs⟩, ?_, rfl, rfl, rfl, rfl, rfl, outcome,
        rfl, rfl⟩
      exact ⟨ha.executionId, ha.waitId, ha.nodeId, congrArg (·.ended phase outcome resultRef) ha.progress⟩
  case ended =>
    intro w' hm hs'
    have ⟨w₁, hw₁, heq⟩ := mem_finish_waits.mp hm
    have hi : w'.waitId = w₁.waitId := by
      subst heq
      unfold endWait
      split <;> rfl
    cases endWait_ended (heq ▸ hs') with
    | inl ended =>
      have ⟨c, hc, hci⟩ := h.ended hw₁ ended
      exact ⟨c, (h.mem_notify hw waiting).mpr (.inl hc), hci.trans hi.symm⟩
    | inr ends => exact ⟨_, (h.mem_notify hw waiting).mpr (.inr rfl), ends.left.symm.trans hi.symm⟩

theorem Consistent.mark (same : ∀ row, (f row).toNotification = row.toNotification)
    (h : db.Consistent) : (db.mark m f keys).Consistent where
  wait      := h.wait
  execution := h.execution
  notification hc := by
    have ⟨c', hc', heq⟩ := mem_mark.mp hc
    have ⟨w, hw, e, he, ha, hr⟩ := h.notification hc'
    refine ⟨w, hw, e, he, ha, ?_⟩
    subst heq
    split
    case isTrue  => exact same c' ▸ hr
    case isFalse => exact hr
  ended hw hs := by
    have ⟨c, hc, hi⟩ := h.ended hw hs
    refine ⟨_, mem_mark.mpr ⟨c, hc, rfl⟩, ?_⟩
    split
    case isTrue  => exact (congrArg (·.waitId) (same c)).trans hi
    case isFalse => exact hi

theorem Consistent.effect (h : db.Consistent) (e : db.Effect db') : db'.Consistent := by
  cases e with
  | none                        => exact h
  | create he hw                => exact h.create he hw
  | complete hw he join waiting => exact h.complete hw he join waiting
  | mark same                   => exact h.mark same

end Consistent

theorem Extends.refl : Extends db db where
  ended h _      := h
  notification h := ⟨_, h, rfl, id⟩

theorem Consistent.extends {db' : Db} (h : db.Consistent) (e : db.Effect db') : db.Extends db' := by
  cases e with
  | none         => exact .refl
  | create he hw =>
    exact ⟨fun hm _ => (Table.mem_insert? hw).mpr (.inl hm), fun hc => ⟨_, hc, rfl, id⟩⟩
  | complete hw he join waiting =>
    constructor
    case ended        => exact fun hm hs => mem_finish_waits.mpr ⟨_, hm, endWait_of_ended hs⟩
    case notification => exact fun hc => ⟨_, (h.mem_notify hw waiting).mpr (.inl hc), rfl, id⟩
  | mark same =>
    constructor
    case ended        => exact fun hm _ => hm
    case notification =>
      intro c hc
      refine ⟨_, mem_mark.mpr ⟨c, hc, rfl⟩, ?_⟩
      split
      case isTrue hp => exact ⟨same c, fun hs => by cases hp.right.symm.trans hs⟩
      case isFalse   => exact ⟨rfl, id⟩

end Db

end NodeExecution
