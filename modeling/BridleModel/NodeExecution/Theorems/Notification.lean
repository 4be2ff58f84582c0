import BridleModel.Mailbox.Theorems.Message
import BridleModel.NodeExecution.Coordinator
import BridleModel.NodeExecution.Theorems.Consistency

open Python Mail

namespace NodeExecution

-- The row is the message that tells the owner of the execution how it has ended.
structure Notifies (n : Notification) (row : MailRow) : Prop where
  messageId   : row.messageId = n.messageId
  messageType : row.messageType = NodeExecution.messageType
  target      : row.targetAddress = n.ownerAddress
  payload     : row.payloadJson = (Json.obj n.payload).dumps

theorem Notifies.content {n : Notification} {row row' : MailRow} (h : Notifies n row)
    (hc : row'.content = row.content) : Notifies n row' where
  messageId   := (congrArg (·.messageId) hc).trans h.messageId
  messageType := (congrArg (·.messageType) hc).trans h.messageType
  target      := (congrArg (·.targetAddress) hc).trans h.target
  payload     := (congrArg (·.payloadJson) hc).trans h.payload

namespace Store

def Listed (s : Store) (n : Notification) : Prop :=
  ∃ c ∈ s.db.completions, c.toNotification = n

def Delivered (s : Store) (n : Notification) : Prop :=
  ∃ row ∈ s.mail.db, Notifies n row

structure Valid (s : Store) : Prop where
  consistent : s.db.Consistent
  sent       : c ∈ s.db.completions → c.state = .sent → s.Delivered c.toNotification
  message    : row ∈ s.mail.db → ours row.messageId row.messageType = true →
    ∃ n, s.Listed n ∧ Notifies n row

-- What everybody guarantees about a change.
structure Guarantee (s s' : Store) : Prop where
  valid   : s'.Valid
  lasting : s.db.Extends s'.db
  message : row ∈ s.mail.db → ∃ row' ∈ s'.mail.db, row'.content = row.content

def At (s : Store) : Position → Prop
  | .idle                           => True
  | .forwarding _ items             => ∀ item ∈ items, s.Listed item
  | .marking _ item status items    =>
    s.Listed item ∧ (status = .inserted ∨ status = .existing → s.Delivered item) ∧
      ∀ item ∈ items, s.Listed item

variable {boxes : Nat → PersistentMailbox} {s s' : Store} {n : Notification} {db : Db}
  {p : Position} {a : Mail.Action}

namespace Guarantee

theorem refl (h : s.Valid) : s.Guarantee s where
  valid     := h
  lasting   := .refl
  message h := ⟨_, h, rfl⟩

theorem listed (g : s.Guarantee s') : s.Listed n → s'.Listed n
  | ⟨_, hc, hn⟩ =>
    have ⟨c', hc', hn', _⟩ := g.lasting.notification hc
    ⟨c', hc', hn'.trans hn⟩

theorem delivered (g : s.Guarantee s') : s.Delivered n → s'.Delivered n
  | ⟨_, hr, hn⟩ =>
    have ⟨row', hr', hc⟩ := g.message hr
    ⟨row', hr', hn.content hc⟩

theorem position (g : s.Guarantee s') (h : s.At p) : s'.At p := by
  cases p with
  | idle       => trivial
  | forwarding => exact fun item hi => g.listed <| h item hi
  | marking    => exact ⟨g.listed h.left, g.delivered ∘ h.right.left, fun item hi => g.listed <| h.right.right item hi⟩

end Guarantee

namespace Valid

theorem of_db (h : s.Valid) (e : s.db.Effect db)
    (sent : ∀ c ∈ db.completions, c.state = .sent → s.Delivered c.toNotification) :
    s.Guarantee { s with db } where
  lasting   := h.consistent.extends e
  message h := ⟨_, h, rfl⟩
  valid     := {
    consistent := h.consistent.effect e
    sent       := sent _
    message    := by
      intro row hr ho
      have ⟨n, ⟨c, hc, hn⟩, hm⟩ := h.message hr ho
      have ⟨c', hc', hn', _⟩ := (h.consistent.extends e).notification hc
      exact ⟨n, ⟨c', hc', hn'.trans hn⟩, hm⟩
  }

theorem create {nodeId owner executionHex waitHex : String} (h : s.Valid) :
    s.Guarantee (s.create nodeId owner executionHex waitHex) := by
  unfold Store.create
  cases hc : s.db.createNodeExecution nodeId owner executionHex waitHex with
  | error => exact .refl h
  | ok out =>
    have hc := Db.createNodeExecution_creates hc
    refine h.of_db hc.effect fun c (hm : c ∈ out.fst.completions) hs => h.sent ?_ hs
    cases hc with
    | reused same      => exact same ▸ hm
    | fresh _ _ insert => rwa [insert] at hm

theorem complete {waitId outcome now : String} {resultRef phase : Option String} (h : s.Valid) :
    s.Guarantee (s.complete waitId outcome resultRef phase now) := by
  unfold Store.complete
  cases hc : s.db.completeExecution waitId outcome resultRef phase now with
  | error  => exact .refl h
  | ok out =>
    have hc := Db.completeExecution_completes hc
    refine h.of_db hc.effect fun c (hm : c ∈ out.fst.completions) hs => ?_
    cases hc with
    | again same => exact h.sent (same ▸ hm) hs
    | first wait execution waiting _ _ _ finish =>
      cases (h.consistent.mem_notify wait waiting).mp (finish ▸ hm) with
      | inl hm => exact h.sent hm hs
      | inr hn => subst hn; cases hs

theorem mark {f : CompletionRow → CompletionRow} {keys : ∀ row, (f row).keys = row.keys}
    (same : ∀ row, (f row).toNotification = row.toNotification) (hn : s.Listed n) (h : s.Valid)
    (sent : ∀ row, (f row).state = .sent → row.state = .sent ∨ s.Delivered n) :
    s.Guarantee { s with db := s.db.mark n.waitId f keys } := by
  refine h.of_db (.mark same) fun c hc hs => ?_
  have ⟨c', hc', heq⟩ := Db.mem_mark.mp hc
  subst heq
  split at hs
  case isFalse hp => rw [if_neg hp]; exact h.sent hc' hs
  case isTrue hp  =>
    rw [if_pos hp, same]
    have ⟨c₀, hc₀, hn⟩ := hn
    cases CompletionRow.eq_of_id hc' hc₀ (hp.left.trans (congrArg (·.waitId) hn).symm)
    cases sent c' hs with
    | inl hs => exact h.sent hc' hs
    | inr hd => exact hn ▸ hd

theorem of_mail (h : s.Valid) (ha : ∀ k env seq now, a = .enqueue k env now →
      ours env.messageId env.messageType = true →
      ∃ n, s.Listed n ∧ Notifies n (.inserted env seq now)) :
    s.Guarantee { s with mail := s.mail.after boxes a } where
  lasting := .refl
  message := Mailboxes.content_after boxes a
  valid   := {
    consistent := h.consistent
    sent hc hs := by
      have ⟨row, hr, hn⟩ := h.sent hc hs
      have ⟨row', hr', hc'⟩ := Mailboxes.content_after boxes a hr
      exact ⟨row', hr', hn.content hc'⟩
    message    := by
      intro row' hr' ho
      cases Mailboxes.origin_after hr' with
      | inl old =>
        have ⟨row, hr, hc⟩ := old
        have hi : row'.messageId = row.messageId := congrArg (·.messageId) hc
        have ht : row'.messageType = row.messageType := congrArg (·.messageType) hc
        have ⟨n, hl, hn⟩ := h.message hr (hi ▸ ht ▸ ho)
        exact ⟨n, hl, hn.content hc⟩
      | inr new =>
        have ⟨k, env, seq, now, he, hr⟩ := new
        subst hr
        exact ha k env seq now he ho
  }

end Valid

theorem ours_messageId {w type : String} : ours (NodeExecution.messageId w) type = true := by
  have hp {p : String} : p.toList.isPrefixOf (p ++ w).toList = true := by
    rw [String.toList_append]
    exact List.isPrefixOf_iff_prefix.mpr <| List.prefix_append ..
  exact decide_eq_true <| .inr hp

theorem Valid.ours (h : s.Valid) (hl : s.Listed n) {type : String} :
    NodeExecution.ours n.messageId type = true := by
  have ⟨c, hc, hn⟩ := hl
  have ⟨w, _, _, _, _, hr⟩ := h.consistent.notification hc
  rw [← hn, hr.messageId]
  exact ours_messageId

-- The message with the identifier of a notification is its message.
theorem Valid.notifies {row : MailRow} (h : s.Valid) (hl : s.Listed n) (hr : row ∈ s.mail.db)
    (hi : row.messageId = n.messageId) : Notifies n row := by
  have ⟨n', ⟨c', hc', hn'⟩, hm⟩ := h.message hr (hi ▸ h.ours hl)
  have ⟨c, hc, hn⟩ := hl
  subst hn hn'
  cases CompletionRow.eq_of_message hc hc' (hi.symm.trans hm.messageId)
  exact hm

theorem notifies_inserted {self : Coordinator} {envelope : MailEnvelope} {seq : Nat} {now : DateTime}
    (h : self.envelope n = .ok envelope) : Notifies n (.inserted envelope seq now) := by
  unfold Coordinator.envelope at h
  split at h
  case h_1        => cases h
  case h_2 target => cases h; exact ⟨rfl, rfl, AgentAddress.toUri_of_parse target, rfl⟩

theorem perform_guarantee {call : Call} (h : s.Valid) (hs : perform boxes s call = some s') :
    s.Guarantee s' := by
  cases call with
  | create   => cases hs; exact h.create
  | complete => cases hs; exact h.complete
  | mail a   =>
    simp only [perform] at hs
    split at hs
    case isFalse   => cases hs
    case isTrue hf =>
      cases hs
      refine h.of_mail fun k env seq now ha ho => ?_
      subst ha
      simp [foreign, ho] at hf

theorem mem_listPending {db : Db} (h : n ∈ db.listPendingCompletionOutbox) :
    ∃ c ∈ db.completions, c.toNotification = n := by
  have ⟨c, hc, hn⟩ := List.mem_map.mp <| (List.mem_insertionSort _).mp h
  exact ⟨c, List.mem_of_mem_filter hc, hn⟩

theorem advance_guarantee {input : Input} {p' : Position} (h : s.Valid) (hp : s.At p)
    (hs : advance boxes s p input = some (s', p')) : s.Guarantee s' ∧ s'.At p' := by
  unfold advance at hs
  split at hs
  case h_1 => cases hs; exact ⟨.refl h, trivial⟩
  case h_2 => cases hs; exact ⟨.refl h, fun _ => mem_listPending⟩
  case h_3 => cases hs; exact ⟨.refl h, trivial⟩
  case h_4 self item items now =>
    split at hs
    case h_1 => cases hs; exact ⟨.refl h, trivial⟩
    case h_2 envelope he =>
      split at hs
      case h_1 => cases hs; exact ⟨.refl h, trivial⟩
      case h_2 mail res hm =>
        cases hs
        have hl : s.Listed item := hp item List.mem_cons_self
        have g : s.Guarantee { s with mail } := by
          rw [← Mailboxes.after_of_ok hm]
          refine h.of_mail fun k env seq now ha _ => ⟨item, hl, ?_⟩
          cases ha
          exact notifies_inserted he
        refine ⟨g, g.listed hl, fun hs => ?_, fun i hi => g.listed <| hp i <| List.mem_cons_of_mem _ hi⟩
        have ⟨row, hr, hi⟩ := Mailboxes.mem_of_enqueue hm hs
        have hi : row.messageId = item.messageId := by
          refine hi.trans ?_
          exact (@notifies_inserted _ _ _ 0 now he).messageId
        exact ⟨row, hr, g.valid.notifies (g.listed hl) hr hi⟩
  case h_5 self item status items now =>
    have ⟨hl, hd, hi⟩ := hp
    cases hs
    have g : s.Guarantee { s with db := if status = .inserted ∨ status = .existing then
        s.db.markCompletionOutboxSent item.waitId else s.db.markCompletionOutboxAttempt item.waitId } := by
      split
      case isTrue hs => exact h.mark (fun _ => rfl) hl fun _ _ => .inr (hd hs)
      case isFalse   => exact h.mark (fun _ => rfl) hl fun _ => .inl
    exact ⟨g, fun i hm => g.listed <| hi i hm⟩
  case h_6 => cases hs

theorem invariant : (processes boxes).Invariant Valid At Guarantee where
  init hs := by
    subst hs
    refine ⟨⟨Db.init_consistent, ?_, ?_⟩, trivial⟩
    · exact fun hc _ => absurd hc Table.not_mem_empty
    · exact fun hr _ => absurd hr Table.not_mem_empty
  environment h hs := perform_guarantee h hs
  advance h hp hs  := advance_guarantee h hp hs
  store _ g        := g.valid
  stable _ g hp    := g.position hp

section Ended

variable {w w' : WaitRow} {waitId outcome now : String} {resultRef phase : Option String}

theorem complete_ended (hw : w ∈ s.db.waits) (ended : w.state = .ended) :
    s.complete w.waitId outcome resultRef phase now = s := by
  unfold Store.complete
  cases hc : s.db.completeExecution w.waitId outcome resultRef phase now with
  | error  => rfl
  | ok out =>
    cases Db.completeExecution_completes hc with
    | again same => exact congrArg (Store.mk · s.mail) same
    | first wait _ waiting id =>
      cases WaitRow.eq_of_id wait hw id
      cases waiting.symm.trans ended

theorem Valid.selectWait (h : s.Valid) (hw : w ∈ s.db.waits) :
    ∃ e, s.db.selectWait w.waitId = some (Db.record (w, e)) := by
  have ⟨e, he, ha⟩ := h.consistent.wait hw
  have hl : s.db.executions.lookup (.id w.executionId) = some e :=
    Table.lookup_eq_some_iff.mpr ⟨he, ha.executionId ▸ ExecutionRow.id_mem_keys⟩
  have hj : (w, e) ∈ s.db.joined := List.mem_filterMap.mpr ⟨w, hw, by rw [hl]; rfl⟩
  cases hs : s.db.selectWait w.waitId with
  | none         =>
    have hn := List.find?_eq_none.mp (Option.map_eq_none_iff.mp hs) _ hj
    simp at hn
  | some current =>
    have ⟨w', hw', e', _, hi, _, hr⟩ := Db.selectWait_eq_some hs
    cases WaitRow.eq_of_id hw' hw hi
    exact ⟨e', congrArg some hr⟩

theorem Valid.complete_conflict {o : Outcome} (h : s.Valid) (hw : w ∈ s.db.waits)
    (ended : w.state = .ended) (ho : Outcome.ofValue outcome = some o) (hne : w.outcome ≠ some o) :
    s.db.completeExecution w.waitId outcome resultRef phase now =
      .error (.conflict "node_execution" "execution already ended with another outcome"
        "execution_terminal_conflict") := by
  have ⟨e, hs⟩ := h.selectWait hw
  simp only [Db.completeExecution, ho, hs]
  exact (if_pos ended).trans <| if_pos <| .inl hne

theorem advance_waits {input : Input} {p' : Position} (hs : advance boxes s p input = some (s', p')) :
    s'.db.waits = s.db.waits := by
  unfold advance at hs
  split at hs
  case h_1 => cases hs; rfl
  case h_2 => cases hs; rfl
  case h_3 => cases hs; rfl
  case h_4 =>
    split at hs
    case h_1 => cases hs; rfl
    case h_2 =>
      split at hs
      case h_1 => cases hs; rfl
      case h_2 => cases hs; rfl
  case h_5 =>
    cases hs
    dsimp only
    split
    case isTrue  => rfl
    case isFalse => rfl
  case h_6 => cases hs

-- Only a call of `complete_execution` ends a wait.
theorem ended_by_call {c c' : Processes.Configuration Store Position} {l : Processes.Label Call Input}
    (hs : (system boxes).step c l = some c') (hw : w' ∈ c'.store.db.waits) (ended : w'.state = .ended) :
    w' ∈ c.store.db.waits ∨ ∃ outcome resultRef phase now,
      l = .environment (.complete w'.waitId outcome resultRef phase now) ∧
        w'.outcome = Outcome.ofValue outcome ∧ w'.resultRef = resultRef := by
  cases l with
  | process p i =>
    have ⟨⟨s', p'⟩, ha, hc⟩ := Option.map_eq_some_iff.mp hs
    subst hc
    exact .inl <| advance_waits ha ▸ hw
  | environment call =>
    have ⟨s', hp, hc⟩ := Option.map_eq_some_iff.mp hs
    subst hc
    cases call with
    | mail a =>
      simp only [processes, perform] at hp
      split at hp
      case isTrue  => cases hp; exact .inl hw
      case isFalse => cases hp
    | create nodeId owner executionHex waitHex =>
      cases hp
      unfold Store.create at hw
      cases hc : c.store.db.createNodeExecution nodeId owner executionHex waitHex with
      | error  => exact .inl <| by simpa [hc] using hw
      | ok out =>
        have hw : w' ∈ out.fst.waits := by simpa [hc] using hw
        cases Db.createNodeExecution_creates hc with
        | reused same => exact .inl (same ▸ hw)
        | fresh _ waits insert =>
          cases (Table.mem_insert? waits).mp (insert ▸ hw) with
          | inl hw => exact .inl hw
          | inr hn => subst hn; cases ended
    | complete waitId outcome resultRef phase now =>
      cases hp
      unfold Store.complete at hw
      cases hc : c.store.db.completeExecution waitId outcome resultRef phase now with
      | error  => exact .inl <| by simpa [hc] using hw
      | ok out =>
        have hw : w' ∈ out.fst.waits := by simpa [hc] using hw
        cases Db.completeExecution_completes hc with
        | again same => exact .inl (same ▸ hw)
        | first wait _ _ id _ ho finish =>
          have ⟨w, hm, heq⟩ := Db.mem_finish_waits.mp (finish ▸ hw)
          cases Db.endWait_ended (heq ▸ ended) with
          | inl ended => exact .inl <| by rwa [← heq, Db.endWait_of_ended ended]
          | inr ends  =>
            right
            rw [Db.endWait, if_pos ends] at heq
            subst heq
            have hi : w.waitId = waitId := ends.left.trans id
            subst hi
            exact ⟨outcome, resultRef, phase, now, rfl, ho.symm, rfl⟩

end Ended
end Store

section Claim

variable {boxes : Nat → PersistentMailbox} {c : Processes.Configuration Store Position}

theorem completion_exactly_once (r : (system boxes).Reachable c) :
    let s := c.store
    (∀ e₁ ∈ s.db.executions, ∀ e₂ ∈ s.db.executions, e₁.state = .waiting → e₂.state = .waiting →
      e₁.nodeId = e₂.nodeId → e₁ = e₂) ∧
    (∀ w ∈ s.db.waits, ∃ e ∈ s.db.executions, Agrees e w) ∧
    (∀ e ∈ s.db.executions, ∃ w ∈ s.db.waits, Agrees e w) ∧
    (∀ w ∈ s.db.waits, w.state = .ended ↔ ∃ n ∈ s.db.completions, n.waitId = w.waitId) ∧
    (∀ n ∈ s.db.completions, ∃ w ∈ s.db.waits, ∃ e ∈ s.db.executions,
      Agrees e w ∧ Reports n.toNotification e w) ∧
    (∀ n ∈ s.db.completions, n.state = .sent → ∃ row ∈ s.mail.db, Notifies n.toNotification row) ∧
    (∀ w ∈ s.db.waits, w.state = .ended → ∀ outcome resultRef phase now,
      s.complete w.waitId outcome resultRef phase now = s ∧
        ∀ o, Outcome.ofValue outcome = some o → w.outcome ≠ some o →
          s.db.completeExecution w.waitId outcome resultRef phase now =
            .error (.conflict "node_execution" "execution already ended with another outcome"
              "execution_terminal_conflict")) ∧
    (∀ row ∈ s.mail.db, row.messageType = messageType →
      ∃ n ∈ s.db.completions, Notifies n.toNotification row) ∧
    (∀ n₁ ∈ s.db.completions, ∀ n₂ ∈ s.db.completions, n₁.waitId = n₂.waitId →
      ∀ row₁ ∈ s.mail.db, ∀ row₂ ∈ s.mail.db,
        Notifies n₁.toNotification row₁ → Notifies n₂.toNotification row₂ → row₁ = row₂) ∧
    ∀ l c', (system boxes).step c l = some c' →
      (∀ w ∈ s.db.waits, w.state = .ended → w ∈ c'.store.db.waits) ∧
      (∀ w ∈ c'.store.db.waits, w.state = .ended → w ∈ s.db.waits ∨
        ∃ outcome resultRef phase now,
          l = .environment (.complete w.waitId outcome resultRef phase now) ∧
            w.outcome = Outcome.ofValue outcome ∧ w.resultRef = resultRef) := by
  intro s
  have h : s.Valid := (Store.invariant.reachable r).left
  refine ⟨?_, fun _ => h.consistent.wait, fun _ => h.consistent.execution, ?_,
    fun _ => h.consistent.notification, fun _ => h.sent, ?_, ?_, ?_, ?_⟩
  · exact fun _ h₁ _ h₂ => ExecutionRow.eq_of_active h₁ h₂
  · refine fun w hw => ⟨h.consistent.ended hw, fun ⟨n, hn, hi⟩ => ?_⟩
    have ⟨w', hw', _, _, _, hr⟩ := h.consistent.notification hn
    cases WaitRow.eq_of_id hw hw' (hi.symm.trans hr.waitId)
    exact hr.ended
  · exact fun w hw ended _ _ _ _ =>
      ⟨Store.complete_ended hw ended, fun _ => h.complete_conflict hw ended⟩
  · intro row hr ht
    have ⟨_, ⟨n, hn, he⟩, hm⟩ := h.message hr (decide_eq_true <| .inl ht)
    exact ⟨n, hn, he ▸ hm⟩
  · intro n₁ h₁ n₂ h₂ hi row₁ hr₁ row₂ hr₂ hn₁ hn₂
    cases CompletionRow.eq_of_id h₁ h₂ hi
    have hm : row₁.messageId = row₂.messageId := hn₁.messageId.trans hn₂.messageId.symm
    exact Option.some.inj <| (MailDb.row?_of_mem hr₁).symm.trans (hm ▸ MailDb.row?_of_mem hr₂)
  · intro l c' hs
    have g : s.Guarantee c'.store := Store.invariant.guarantee r hs
    exact ⟨fun _ => g.lasting.ended, fun _ => Store.ended_by_call hs⟩

-- The owner is told once although the first call of `forward_completion_mail` has crashed between the
-- message and the mark.
namespace Sample

def coordinator : Coordinator where
  mailbox := 0
  owner   := Mail.Sample.map

def labels : List (Processes.Label Call Input) := [
  .environment (.create "node" Mail.Sample.map.toUri "e" "w"),
  .environment (.complete "wait-w" "completed" (some "result") none "2024-01-01 00:00:00"),
  .process 0 (.forward coordinator),
  .process 0 (.next (Mail.Sample.clock 0)),
  .process 0 .crash,
  .environment (.complete "wait-w" "failed" none none "2024-01-01 00:00:01"),
  .process 0 (.forward coordinator),
  .process 0 (.next (Mail.Sample.clock 1)),
  .process 0 (.next (Mail.Sample.clock 2))
]

def start : Processes.Configuration Store Position where
  store     := .init
  process _ := .idle

end Sample

theorem completion_exactly_once_crash :
    ∃ c n row, (system Mail.Sample.box).run Sample.start Sample.labels = some c ∧
      c.store.db.completions.rows = [n] ∧ c.store.mail.db.rows = [row] ∧ n.state = .sent ∧
        Notifies n.toNotification row := by
  have h : ((system Mail.Sample.box).run Sample.start Sample.labels).map (fun c =>
      (c.store.db.completions.rows.map (·.state), c.store.mail.db.rows.length)) = some ([.sent], 1) := by
    decide +kernel
  have ⟨c, hc, ho⟩ := Option.map_eq_some_iff.mp h
  have ⟨hs, hl⟩ := Prod.mk.inj ho
  have ⟨n, hn, hns⟩ := List.map_eq_singleton_iff.mp hs
  have ⟨row, hr⟩ := List.length_eq_one_iff.mp hl
  have hi : (system Mail.Sample.box).init Sample.start := ⟨rfl, fun _ => rfl⟩
  have ⟨_, _, _, _, _, sent, _⟩ := completion_exactly_once (.run (.init hi) hc)
  have ⟨row', hr', hm⟩ := sent n (Table.mem_def.mpr (hn ▸ List.mem_singleton_self n)) hns
  cases List.mem_singleton.mp (hr ▸ Table.mem_def.mp hr')
  exact ⟨c, n, _, hc, hn, hr, hns, hm⟩

end Claim
end NodeExecution
