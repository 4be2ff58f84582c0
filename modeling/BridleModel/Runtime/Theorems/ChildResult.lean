import BridleModel.Runtime.ChildResult
import BridleModel.Runtime.Theorems.Generation

open Except

namespace Dispatch

section Plan

variable {db db' : PlanDb} {nodeId targetRole uuid messageId status : String} {result : Json.Dict}

-- What a dispatch writes
structure Dispatched (db : PlanDb) (nodeId uuid : String) (db' : PlanDb) (messageId : String) : Prop where
  receipts : db'.receipts = db.receipts
  nodes    : ∀ node ∈ db'.nodes, node.id ≠ nodeId → node ∈ db.nodes
  spawns   : ∀ fact ∈ db.spawns, fact ∈ db'.spawns
  spawned  : ∃ fact ∈ db'.spawns, fact.messageId = messageId ∧ fact.nodeId = nodeId
  origin   : (∃ fact, db.spawnOf nodeId = some fact ∧ fact.messageId = messageId) ∨
    db.spawnOf nodeId = none ∧ messageId = "spawn-" ++ uuid

theorem mem_setStatus {p : PlanGraph.NodeRow → Bool} {s : PlanGraph.Status} {node : PlanGraph.NodeRow} :
    node ∈ (db.setStatus p s).nodes ↔
      ∃ row ∈ db.nodes, (if p row then { row with status := s } else row) = node :=
  Table.mem_modify (h := PlanGraph.keep_id fun _ => rfl)

theorem mem_of_setStatus {s : PlanGraph.Status} {node : PlanGraph.NodeRow}
    (h : node ∈ (db.setStatus (·.id = nodeId) s).nodes) (hn : node.id ≠ nodeId) : node ∈ db.nodes := by
  obtain ⟨row, hr, rfl⟩ := mem_setStatus.mp h
  by_cases he : row.id = nodeId
  case pos => simp [he] at hn
  case neg => simpa [he] using hr

theorem insert_spawn {fact : SpawnFact} (hn : db.spawnOf fact.nodeId = none)
    (hm : ∀ f ∈ db.spawns, f.messageId ≠ fact.messageId) : ∃ spawns, db.spawns.insert? fact = some spawns := by
  refine Table.insert?_isSome fun k hk => ?_
  cases List.mem_pair.mp hk with
  | inr hk => exact hk ▸ hn
  | inl hk =>
    refine Table.lookup_eq_none_iff.mpr fun f hf hkey => hm f hf ?_
    simp only [hk, SpawnFact.keys, List.mem_pair, SpawnKey.message.injEq, reduceCtorEq, or_false] at hkey
    exact hkey.symm

theorem dispatched (hf : ∀ fact ∈ db.spawns, fact.messageId ≠ "spawn-" ++ uuid)
    (h : db.dispatchChildAgent nodeId targetRole uuid = .ok (db', messageId)) :
    Dispatched db nodeId uuid db' messageId := by
  unfold PlanDb.dispatchChildAgent at h
  dsimp only at h
  split at h
  case h_1 => cases h
  case h_2 => cases h
  case h_3 =>
    cases hs : db.spawnOf nodeId with
    | some fact =>
      rw [hs] at h
      cases h
      obtain ⟨hm, hk⟩ := Table.lookup_eq_some_iff.mp hs
      have hnode : fact.nodeId = nodeId := by simpa [SpawnFact.keys, eq_comm] using hk
      exact {
        receipts := rfl
        nodes    := fun _ => mem_of_setStatus
        spawns   := fun _ => Table.mem_insertIgnore
        spawned  := ⟨fact, Table.mem_insertIgnore hm, rfl, hnode⟩
        origin   := Or.inl ⟨fact, hs, rfl⟩
      }
    | none      =>
      rw [hs] at h
      cases h
      let fact : SpawnFact := ⟨"spawn-" ++ uuid, nodeId, targetRole, "pending"⟩
      obtain ⟨spawns, hi⟩ : ∃ spawns, db.spawns.insert? fact = some spawns := insert_spawn hs hf
      have hfact : fact ∈ (db.spawns.insert? fact).getD db.spawns := by
        rw [hi]
        exact (Table.mem_insert? hi).mpr (Or.inr rfl)
      exact {
        receipts := rfl
        nodes    := fun _ => mem_of_setStatus
        spawns   := fun _ => Table.mem_insertIgnore
        spawned  := ⟨fact, hfact, rfl, rfl⟩
        origin   := Or.inr ⟨hs, rfl⟩
      }

-- What the application of a result writes
inductive Applies (db : PlanDb) (messageId nodeId status : String) (result : Json.Dict) (db' : PlanDb) : Prop
  | known {receipt : Receipt} (mem : receipt ∈ db.receipts) (id : receipt.messageId = messageId)
      (unchanged : db' = db)
  | new {fact : SpawnFact} {row : Receipt} (unknown : ∀ receipt ∈ db.receipts, receipt.messageId ≠ messageId)
      (spawn : fact ∈ db.spawns) (node : fact.nodeId = nodeId)
      (message : messageId = resultMessageId fact.messageId)
      (receipt : row = { messageId, nodeId, resultStatus := status, result })
      (receipts : ∀ r ∈ db'.receipts, r ∈ db.receipts ∨ r = row)
      (nodes : ∀ n ∈ db'.nodes, n ∈ db.nodes ∧ (n.id = nodeId → n.archived = true) ∨
        n.id = nodeId ∧ n.archived = false ∧ n.status = PlanDb.planStatus status)
      (spawns : ∀ f ∈ db.spawns, ∃ f' ∈ db'.spawns, f'.messageId = f.messageId ∧ f'.nodeId = f.nodeId)

theorem applies {a : PlanDb.Applied} (h : db.applyChildResult messageId nodeId status result = .ok (db', a)) :
    Applies db messageId nodeId status result db' := by
  obtain ⟨_, -, h⟩ := bind_eq_ok_iff.mp h
  split at h
  case h_1 receipt hl =>
    cases h
    obtain ⟨hm, hk⟩ := Table.lookup_eq_some_iff.mp hl
    exact .known hm (List.mem_singleton.mp hk).symm rfl
  case h_2 hl         =>
    obtain ⟨_, hc, h⟩ := bind_eq_ok_iff.mp h
    have hany := not_not.mp (raiseIf_eq_ok_iff.mp hc)
    obtain ⟨fact, hs, hid⟩ : ∃ fact, db.spawnOf nodeId = some fact ∧
        messageId = resultMessageId fact.messageId := by
      cases hs : db.spawnOf nodeId with
      | none      => simp [hs] at hany
      | some fact => exact ⟨fact, rfl, by simpa [hs] using hany⟩
    obtain ⟨hm, hk⟩ := Table.lookup_eq_some_iff.mp hs
    have hnode : fact.nodeId = nodeId := by simpa [SpawnFact.keys, eq_comm] using hk
    have hunknown : ∀ r ∈ db.receipts, r.messageId ≠ messageId := fun r hr he =>
      Table.lookup_eq_none_iff.mp hl r hr (List.mem_singleton.mpr he.symm)
    dsimp only at h
    split at h
    case h_1 => cases h
    case h_2 receipts hi =>
      cases h
      refine .new hunknown hm hnode hid rfl (fun r hr => (Table.mem_insert? hi).mp hr) (fun n hn => ?_)
        (fun f hf => ?_)
      · obtain ⟨row, hr, rfl⟩ := mem_setStatus.mp hn
        by_cases he : row.id = nodeId ∧ row.archived = false
        case pos => exact Or.inr (by simp [he])
        case neg =>
          refine Or.inl ?_
          simp only [he, decide_false, Bool.false_eq_true, if_false]
          exact ⟨hr, fun hid => Bool.eq_true_of_not_eq_false fun ha => he ⟨hid, ha⟩⟩
      · have hm := @Table.modify_mem _ _ _ db.spawns f (·.nodeId = nodeId)
          (fun fact => { fact with status }) (Table.keep fun _ => rfl) hf
        refine ⟨_, hm, ?_⟩
        by_cases he : f.nodeId = nodeId <;> simp [he]

-- A result whose receipt is there changes nothing.
theorem apply_known {receipt : Receipt} (hr : receipt ∈ db.receipts) {a : PlanDb.Applied}
    (h : db.applyChildResult receipt.messageId nodeId status result = .ok (db', a)) : db' = db := by
  cases applies h with
  | known _ _ unchanged           => exact unchanged
  | new unknown _ _ _ _ _ _ _ => exact absurd rfl (unknown receipt hr)

end Plan

-- A node whose child was created is not dispatched again.
def Admitted (w : World) : Action → Prop
  | .dispatch nodeId .. => ∀ fact ∈ w.plan.spawnOf nodeId,
    (Runtime.childAgentId fact.messageId, 1) ∉ w.runtimes.rows
  | _ => True

instance (w : World) : ∀ a, Decidable (Admitted w a)
  | .dispatch nodeId ..                               =>
    inferInstanceAs (Decidable (∀ fact ∈ w.plan.spawnOf nodeId, _))
  | .finish .. | .deliver .. | .fallBack .. | .recover .. | .restart => inferInstanceAs (Decidable True)

-- The result that a call has sent under its message id
structure Sent (call : Call) (messageId nodeId status : String) (result : Json.Dict) : Prop where
  started : call.started = true
  message : messageId = resultMessageId call.spawnMessageId
  node    : nodeId = call.nodeId
  outcome : call.outcome = some (status, result)

structure Inv (w : World) : Prop where
  facts    : ∀ call ∈ w.calls, ∃ fact ∈ w.plan.spawns,
    fact.messageId = call.spawnMessageId ∧ fact.nodeId = call.nodeId
  records  : ∀ call ∈ w.calls, call.started → (Runtime.childAgentId call.spawnMessageId, 1) ∈ w.runtimes
  created  : ∀ r ∈ w.runtimes, ∃ fact ∈ w.plan.spawns, r.fst = Runtime.childAgentId fact.messageId
  last     : w.calls.Pairwise fun a b => a.nodeId = b.nodeId → a.started = false
  mail     : ∀ e ∈ w.mail, ∃ call ∈ w.calls,
    Sent call e.messageId e.payload.nodeId e.payload.status e.payload.result
  receipts : ∀ r ∈ w.plan.receipts, (∃ call ∈ w.calls, Sent call r.messageId r.nodeId r.resultStatus r.result) ∧
    ∀ node ∈ w.plan.nodes, node.id = r.nodeId → node.archived = false →
      node.status = PlanDb.planStatus r.resultStatus

section Step

variable {w w' : World} {a : Action} {call call' : Call} {payload : Payload}
  {nodeId targetRole uuid messageId status : String} {result : Json.Dict}

theorem resultMessageId_inj {x y : String} : resultMessageId x = resultMessageId y ↔ x = y :=
  String.append_right_inj _

theorem fact_of_node {db : PlanDb} {fact fact' : SpawnFact} (h : fact ∈ db.spawns) (h' : fact' ∈ db.spawns)
    (hn : fact.nodeId = fact'.nodeId) : fact = fact' :=
  Table.eq_of_mem_keys (k := .node fact.nodeId) h h' (by simp [SpawnFact.keys]) (by simp [SpawnFact.keys, hn])

theorem fact_of_message {db : PlanDb} {fact fact' : SpawnFact} (h : fact ∈ db.spawns) (h' : fact' ∈ db.spawns)
    (hm : fact.messageId = fact'.messageId) : fact = fact' :=
  Table.eq_of_mem_keys (k := .message fact.messageId) h h' (by simp [SpawnFact.keys])
    (by simp [SpawnFact.keys, hm])

-- A call keeps what it has sent.
structure Keeps (f : Call → Call) : Prop where
  node    : ∀ call, (f call).nodeId = call.nodeId
  spawn   : ∀ call, (f call).spawnMessageId = call.spawnMessageId
  started : ∀ call, (f call).started = call.started
  outcome : ∀ call o, call.outcome = some o → (f call).outcome = some o

theorem Sent.keep {f : Call → Call} (hf : Keeps f) (h : Sent call messageId nodeId status result) :
    Sent (f call) messageId nodeId status result where
  started := (hf.started call).trans h.started
  message := (hf.spawn call).symm ▸ h.message
  node    := h.node.trans (hf.node call).symm
  outcome := hf.outcome call _ h.outcome

namespace Inv

theorem node_of_spawn (hi : Inv w) (h : call ∈ w.calls) (h' : call' ∈ w.calls)
    (hs : call.spawnMessageId = call'.spawnMessageId) : call.nodeId = call'.nodeId := by
  obtain ⟨fact, hf, hm, hn⟩ := hi.facts call h
  obtain ⟨fact', hf', hm', hn'⟩ := hi.facts call' h'
  rw [← hn, ← hn', fact_of_message hf hf' (hm.trans (hs.trans hm'.symm))]

-- No call of a node follows one that was started.
theorem started_last (hi : Inv w) (h : call ∈ w.calls) (h' : call' ∈ w.calls)
    (hs : call.started = true) (hs' : call'.started = true) (hn : call.nodeId = call'.nodeId) :
    call = call' := by
  by_contra hne
  have hp : w.calls.Pairwise fun a b => a.nodeId = b.nodeId → ¬(a.started = true ∧ b.started = true) :=
    hi.last.imp fun hl he hab => Bool.false_ne_true ((hl he).symm.trans hab.left)
  have : Std.Symm fun a b : Call => a.nodeId = b.nodeId → ¬(a.started = true ∧ b.started = true) :=
    ⟨fun _ _ hl he hab => hl he.symm hab.symm⟩
  exact hp.forall h h' hne hn ⟨hs, hs'⟩

-- Who has sent a result under one id has sent that result.
theorem sent_unique (hi : Inv w) (h : call ∈ w.calls) (h' : call' ∈ w.calls) {nodeId' status' : String}
    {result' : Json.Dict} (hs : Sent call messageId nodeId status result)
    (hs' : Sent call' messageId nodeId' status' result') : call = call' := by
  have hm := resultMessageId_inj.mp (hs.message.symm.trans hs'.message)
  exact hi.started_last h h' hs.started hs'.started (hi.node_of_spawn h h' hm)

theorem applied (hi : Inv w) (hc : call ∈ w.calls)
    (hs : Sent call messageId payload.nodeId payload.status payload.result)
    (h : w.applied? messageId payload = some w') : Inv w' := by
  unfold World.applied? at h
  split at h
  case h_1         => cases h
  case h_2 plan _ ha =>
    cases h
    cases applies ha with
    | known _ _ he => subst he; exact hi
    | @new fact row unknown spawn node message receipt receipts nodes spawns =>
      have hfacts {P : SpawnFact → Prop} (hP : ∀ {f f' : SpawnFact}, f'.messageId = f.messageId →
          f'.nodeId = f.nodeId → P f → P f') (hf : ∃ f ∈ w.plan.spawns, P f) : ∃ f ∈ plan.spawns, P f := by
        obtain ⟨f, hf, hp⟩ := hf
        obtain ⟨f', hf', hm, hn⟩ := spawns f hf
        exact ⟨f', hf', hP hm hn hp⟩
      exact {
        facts    := fun c hc' => hfacts (fun hm hn hp => ⟨hm.trans hp.left, hn.trans hp.right⟩) (hi.facts c hc')
        records  := hi.records
        created  := fun r hr => hfacts (fun hm _ hp => hm ▸ hp) (hi.created r hr)
        last     := hi.last
        mail     := hi.mail
        receipts := fun r hr => by
          cases receipts r hr with
          | inr he =>
            subst he receipt
            refine ⟨⟨call, hc, hs⟩, fun n hn hid harch => ?_⟩
            cases nodes n hn with
            | inl h => exact absurd harch (by simp [h.right hid])
            | inr h => exact h.right.right
          | inl hr =>
            obtain ⟨⟨c, hc', hs'⟩, hstatus⟩ := hi.receipts r hr
            refine ⟨⟨c, hc', hs'⟩, fun n hn hid harch => ?_⟩
            cases nodes n hn with
            | inl h => exact hstatus n h.left hid harch
            | inr h =>
              -- The node has one call with a child, whose result is known or new.
              have hn : c.nodeId = call.nodeId := by rw [← hs'.node, ← hid, h.left, hs.node]
              have he := hi.started_last hc' hc hs'.started hs.started hn
              subst he
              exact absurd (hs'.message.trans hs.message.symm) (unknown r hr)
      }

theorem apply (hi : Inv w) (hc : call ∈ w.calls)
    (hs : Sent call messageId payload.nodeId payload.status payload.result) :
    Inv (w.apply messageId payload) := by
  rw [World.apply]
  cases h : w.applied? messageId payload with
  | none    => exact hi
  | some w' => exact hi.applied hc hs h

theorem map {f : Call → Call} {completed : List String} (hf : Keeps f) (hi : Inv w) :
    Inv { w with completed, calls := w.calls.map f } where
  facts call hm := by
    obtain ⟨c, hc, rfl⟩ := List.mem_map.mp hm
    rw [hf.spawn, hf.node]
    exact hi.facts c hc
  records call hm hs := by
    obtain ⟨c, hc, rfl⟩ := List.mem_map.mp hm
    rw [hf.spawn]
    exact hi.records c hc (hf.started c ▸ hs)
  created := hi.created
  last := List.pairwise_map.mpr <| hi.last.imp fun {a b} hl he => by
    rw [hf.started]
    exact hl (by rwa [hf.node, hf.node] at he)
  mail e he := by
    obtain ⟨c, hc, hs⟩ := hi.mail e he
    exact ⟨f c, List.mem_map_of_mem hc, hs.keep hf⟩
  receipts r hr := by
    obtain ⟨⟨c, hc, hs⟩, hstatus⟩ := hi.receipts r hr
    exact ⟨⟨f c, List.mem_map_of_mem hc, hs.keep hf⟩, hstatus⟩

theorem dispatch {admitted : Bool} (hi : Inv w) (ha : Admitted w (.dispatch nodeId targetRole uuid admitted))
    (hf : ∀ fact ∈ w.plan.spawns, fact.messageId ≠ "spawn-" ++ uuid) :
    Inv (w.dispatch nodeId targetRole uuid admitted) := by
  unfold World.dispatch
  split
  case h_1            => exact hi
  case h_2 plan m hd =>
    have d := dispatched hf hd
    have hnone : ∀ c ∈ w.calls, c.nodeId = nodeId → c.started = false := by
      intro c hc hn
      refine Bool.eq_false_iff.mpr fun hs => ?_
      obtain ⟨fact, hfact, hm, hnode⟩ := hi.facts c hc
      have hsp : w.plan.spawnOf nodeId = some fact :=
        Table.lookup_eq_some_iff.mpr ⟨hfact, by simp [SpawnFact.keys, hnode, hn]⟩
      exact ha fact hsp (hm ▸ hi.records c hc hs)
    have hbase (call : Call) (hcn : call.nodeId = nodeId) (hcm : call.spawnMessageId = m)
        (runtimes : Table (String × Nat) fun row => [row])
        (hr : ∀ r ∈ runtimes, r ∈ w.runtimes ∨ r = (Runtime.childAgentId m, 1))
        (hold : ∀ r ∈ w.runtimes, r ∈ runtimes)
        (hs : call.started = true → (Runtime.childAgentId m, 1) ∈ runtimes) :
        Inv { w with plan, runtimes, calls := w.calls ++ [call] } := {
      facts    := fun c hc => by
        cases List.mem_append.mp hc with
        | inl hc =>
          obtain ⟨fact, hfact, h⟩ := hi.facts c hc
          exact ⟨fact, d.spawns fact hfact, h⟩
        | inr hc =>
          obtain rfl := List.mem_singleton.mp hc
          rw [hcn, hcm]
          exact d.spawned
      records  := fun c hc hstarted => by
        cases List.mem_append.mp hc with
        | inl hc => exact hold _ (hi.records c hc hstarted)
        | inr hc =>
          obtain rfl := List.mem_singleton.mp hc
          rw [hcm]
          exact hs hstarted
      created  := fun r hrow => by
        cases hr r hrow with
        | inl hrow =>
          obtain ⟨fact, hfact, h⟩ := hi.created r hrow
          exact ⟨fact, d.spawns fact hfact, h⟩
        | inr he   =>
          obtain ⟨fact, hfact, hm, -⟩ := d.spawned
          exact ⟨fact, hfact, by rw [he, hm]⟩
      last     := List.pairwise_append.mpr ⟨hi.last, List.pairwise_singleton .., fun a ha b hb he => by
        obtain rfl := List.mem_singleton.mp hb
        exact hnone a ha (he.trans hcn)⟩
      mail     := fun e he => by
        obtain ⟨c, hc, hsent⟩ := hi.mail e he
        exact ⟨c, List.mem_append_left _ hc, hsent⟩
      receipts := fun r hr => by
        obtain ⟨⟨c, hc, hsent⟩, hstatus⟩ := hi.receipts r (d.receipts ▸ hr)
        refine ⟨⟨c, List.mem_append_left _ hc, hsent⟩, fun node hn hid => ?_⟩
        have hne : node.id ≠ nodeId := fun he =>
          Bool.false_ne_true ((hnone c hc (by rw [← hsent.node, ← hid, he])).symm.trans hsent.started)
        exact hstatus node (d.nodes node hn hne) hid }
    dsimp only
    split
    case h_1 => exact hbase _ rfl rfl w.runtimes (fun _ => Or.inl) (fun _ h => h) (fun h => nomatch h)
    case h_2 runtimes hins =>
      cases admitted with
      | false => cases hins
      | true  =>
        have hmem {r} := Table.mem_insert? (b := r) hins
        exact hbase _ rfl rfl runtimes (fun r => hmem.mp) (fun r hr => hmem.mpr (Or.inl hr))
          fun _ => hmem.mpr (Or.inr rfl)

theorem finish (hi : Inv w) : Inv (w.finish messageId status result) := by
  refine hi.map ⟨fun call => ?_, fun call => ?_, fun call => ?_, fun call o ho => ?_⟩
  case refine_4 => rw [if_neg fun h => by simp [ho] at h, ho]
  all_goals split <;> rfl

theorem restart (hi : Inv w) : Inv { w with
    completed := []
    calls     := w.calls.map fun call => { call with alive := false } } :=
  hi.map ⟨fun _ => rfl, fun _ => rfl, fun _ => rfl, fun _ _ h => h⟩

theorem deliver {accepted claimed acked recorded : Bool} (hi : Inv w) (hc : call ∈ w.calls)
    (hs : Sent call messageId payload.nodeId payload.status payload.result) :
    Inv (w.deliver messageId payload accepted claimed acked recorded) := by
  have hmail : Inv { w with mail := (w.mail.insert? { messageId, payload }).getD w.mail } := {
    facts    := hi.facts
    records  := hi.records
    created  := hi.created
    last     := hi.last
    receipts := hi.receipts
    mail     := fun e he => by
      cases hins : w.mail.insert? { messageId, payload } with
      | none      => exact hi.mail e (by simpa [hins] using he)
      | some mail =>
        rw [hins] at he
        cases (Table.mem_insert? hins).mp he with
        | inl he => exact hi.mail e he
        | inr he => exact he ▸ ⟨call, hc, hs⟩ }
  unfold World.deliver
  dsimp only
  split
  case isTrue => exact hi
  split
  case isTrue => exact hi
  split
  case isTrue => exact hmail
  split
  case h_1      => exact hmail
  case h_2 ha =>
    have happ := hmail.applied hc hs ha
    split
    case isFalse => exact happ
    case isTrue  => exact ⟨happ.facts, happ.records, happ.created, happ.last, happ.mail, happ.receipts⟩

theorem child {spawnMessageId : String} (h : w.child? spawnMessageId = some call)
    (ho : call.outcome = some (status, result)) :
    call ∈ w.calls ∧ Sent call (resultMessageId spawnMessageId) call.nodeId status result := by
  rw [World.child?] at h
  have hp := List.find?_some h
  obtain ⟨rfl, hs, -⟩ := of_decide_eq_true hp
  exact ⟨List.mem_of_find?_eq_some h, hs, rfl, rfl, ho⟩

theorem step (hi : Inv w) (ha : Admitted w a) (h : w.step a = some w') : Inv w' := by
  cases a with
  | dispatch nodeId targetRole uuid admitted =>
    obtain ⟨_, hf, h⟩ := Option.bind_eq_some_iff.mp h
    exact Option.some.inj h ▸ hi.dispatch ha ((Option.guard_eq_some' _).mp hf)
  | finish spawnMessageId status result =>
    obtain ⟨_, -, h⟩ := Option.bind_eq_some_iff.mp h
    exact Option.some.inj h ▸ hi.finish
  | deliver spawnMessageId accepted claimed acked recorded =>
    obtain ⟨call, hc, h⟩ := Option.bind_eq_some_iff.mp h
    obtain ⟨o, ho, h⟩ := Option.bind_eq_some_iff.mp h
    obtain ⟨hm, hs⟩ := child hc ho
    exact Option.some.inj h ▸ hi.deliver hm hs
  | fallBack spawnMessageId =>
    obtain ⟨call, hc, h⟩ := Option.bind_eq_some_iff.mp h
    obtain ⟨o, ho, h⟩ := Option.bind_eq_some_iff.mp h
    obtain ⟨hm, hs⟩ := child hc ho
    exact Option.some.inj h ▸ hi.apply hm hs
  | recover messageId =>
    obtain ⟨e, he, h⟩ := Option.bind_eq_some_iff.mp h
    obtain ⟨hm, hk⟩ := Table.lookup_eq_some_iff.mp he
    obtain ⟨call, hc, hs⟩ := hi.mail e hm
    rw [← List.mem_singleton.mp hk] at hs
    exact Option.some.inj h ▸ hi.apply hc hs
  | restart => exact Option.some.inj h ▸ hi.restart

end Inv

theorem Fresh.inv (h : World.Fresh w) : Inv w := by
  obtain ⟨hs, hr, hru, -, hm, -, hc⟩ := h
  exact {
    facts    := by simp [hc]
    records  := by simp [hc]
    created  := by simp [hru]
    last     := by simp [hc]
    mail     := by simp [hm]
    receipts := by simp [hr] }

def World.latest (w : World) (nodeId : String) : Option Call :=
  (w.calls.filter (·.nodeId = nodeId)).getLast?

-- Once the result of its last dispatch is applied, a node has ended, and with that result.
def Settled (w : World) : Prop :=
  ∀ nodeId call, w.latest nodeId = some call → ∀ receipt ∈ w.plan.receipts,
    receipt.messageId = resultMessageId call.spawnMessageId →
      receipt.nodeId = nodeId ∧ call.outcome = some (receipt.resultStatus, receipt.result) ∧
        ∀ node ∈ w.plan.nodes, node.id = nodeId → node.archived = false →
          node.status = .completed ∨ node.status = .failed

-- Nothing comes of a result that arrives again, on any way.
structure Repeatable (w : World) : Prop where
  apply     : ∀ receipt ∈ w.plan.receipts, ∀ payload, w.apply receipt.messageId payload = w
  deliver   : ∀ receipt ∈ w.plan.receipts, ∀ payload accepted claimed acked recorded,
    (w.deliver receipt.messageId payload accepted claimed acked recorded).plan = w.plan
  delivered : ∀ messageId ∈ w.delivered, ∀ payload accepted claimed acked recorded,
    w.deliver messageId payload accepted claimed acked recorded = w

theorem Inv.settled (hi : Inv w) : Settled w := by
  intro nodeId call hl receipt hr hm
  have hcn := List.mem_filter.mp (List.mem_of_getLast? hl)
  have hn : call.nodeId = nodeId := of_decide_eq_true hcn.right
  obtain ⟨⟨c, hc, hs⟩, hstatus⟩ := hi.receipts receipt hr
  have hspawn := resultMessageId_inj.mp (hs.message.symm.trans hm)
  have hcnode : c.nodeId = nodeId := (hi.node_of_spawn hc hcn.left hspawn).trans hn
  -- The call that has sent the result is the last of its node.
  have he : c = call := by
    obtain ⟨before, hb⟩ := List.getLast?_eq_some_iff.mp hl
    have hp := hi.last.sublist (List.filter_sublist (p := fun call => call.nodeId = nodeId))
    have hm : c ∈ w.calls.filter (·.nodeId = nodeId) := List.mem_filter.mpr ⟨hc, decide_eq_true hcnode⟩
    rw [hb] at hp hm
    cases List.mem_append.mp hm with
    | inr h => exact List.mem_singleton.mp h
    | inl h =>
      have hf := (List.pairwise_append.mp hp).right.right c h call (List.mem_singleton_self _)
      exact absurd (hs.started.symm.trans (hf (hcnode.trans hn.symm))) Bool.false_ne_true.symm
  subst he
  refine ⟨hs.node.trans hcnode, hs.outcome, fun node hnode hid ha => ?_⟩
  rw [hstatus node hnode (hid.trans (hs.node.trans hcnode).symm) ha, PlanDb.planStatus]
  split
  case isTrue  => exact Or.inl rfl
  case isFalse => exact Or.inr rfl

theorem applied_known {receipt : Receipt} (hr : receipt ∈ w.plan.receipts)
    (h : w.applied? receipt.messageId payload = some w') : w' = w := by
  unfold World.applied? at h
  split at h
  case h_1      => cases h
  case h_2 ha =>
    obtain rfl := apply_known hr ha
    exact (Option.some.inj h).symm

theorem repeatable : Repeatable w where
  apply receipt hr payload := by
    rw [World.apply]
    cases h : w.applied? receipt.messageId payload with
    | none    => rfl
    | some w' => exact applied_known hr h
  deliver receipt hr payload accepted claimed acked recorded := by
    unfold World.deliver
    dsimp only
    split
    case isTrue => rfl
    split
    case isTrue => rfl
    split
    case isTrue => rfl
    split
    case h_1      => rfl
    case h_2 ha =>
      have he := applied_known (by exact hr) ha
      split <;> rw [he]
  delivered messageId hd payload accepted claimed acked recorded := by
    exact if_pos (Or.inr (Table.mem_def.mp hd))

-- In a run that dispatches no node whose child was created before
theorem results_settle {w₀ : World} {as : List Action} (hi : dispatches.init w₀)
    (ha : ∀ {w₁ a w₂}, dispatches.Occurs w₀ as w₁ a w₂ → Admitted w₁ a) (h : dispatches.run w₀ as = some w) :
    Settled w ∧ Repeatable w := by
  have hw : Inv w := TransitionSystem.Occurs.run_invariant (Fresh.inv hi) (fun ho hw => hw.step (ha ho) ho.step) h
  exact ⟨hw.settled, repeatable⟩

end Step

namespace Sample

def node (status : PlanGraph.Status) : PlanGraph.NodeRow where
  id       := "n"
  parentId := none
  order    := 0
  status   := status
  nodeType := "module"
  title    := "n"
  goal     := ""
  payload  := .obj []
  archived := false

def start : World where
  plan      := {
    scanStatus      := none
    readinessReason := none
    nodes           := { rows := [node .ready], unique := List.pairwise_singleton .. }
    edges           := .empty
    changes         := []
    spawns          := .empty
    receipts        := .empty }
  runtimes  := .empty
  delivered := .empty
  mail      := .empty
  completed := []
  calls     := []

def settled : List Action :=
  [.dispatch "n" "mapping" "u" true, .finish "spawn-u" "completed" [],
    .deliver "spawn-u" true true true true]

-- The node is dispatched again after its child has finished.
def redispatched : List Action :=
  settled ++ [.dispatch "n" "executing" "v" true]

theorem start_fresh : start.Fresh :=
  ⟨rfl, rfl, rfl, rfl, rfl, rfl, rfl⟩

end Sample

open Sample in
theorem results_settle_delivered : ∃ w, dispatches.run start settled = some w ∧ Settled w ∧ Repeatable w := by
  have ha {w₁ a w₂} (ho : dispatches.Occurs start settled w₁ a w₂) : Admitted w₁ a :=
    of_decide_eq_true (ho.along (p := fun w a => Admitted w a) rfl)
  exact ⟨_, rfl, results_settle start_fresh ha rfl⟩

open Sample in
theorem redispatch_unsettled : ∃ w, dispatches.run start redispatched = some w ∧ ¬Settled w ∧
    (∃ receipt ∈ w.plan.receipts, ∀ payload, w.apply receipt.messageId payload = w) ∧
    ∀ row ∈ w.plan.nodes, row.status = .executing := by
  refine ⟨_, rfl, fun h => ?_, ⟨_, List.mem_singleton_self _, repeatable.apply _ (List.mem_singleton_self _)⟩, ?_⟩
  · obtain ⟨-, ho, -⟩ := h "n" _ rfl _ (List.mem_singleton_self _) rfl
    cases ho
  · intro row hr
    rw [List.mem_singleton.mp hr]
    rfl

end Dispatch
