import BridleModel.Outbox.System

namespace Outbox

-- The intents that the position of a call carries along
def Position.intents : Position → List ChangeIntent
  | start | finished _ => []
  | reserved _ i | writing _ i | staged _ i | committing _ i | replaced _ i | ready _ i | failing _ i
  | abandoning _ i     => [i]

def BatchPosition.intents : BatchPosition → List ChangeIntent
  | working _ body => body.prepared.map (·.intent)
  | _              => []

namespace Shared

variable {capacity : Nat} {s s' s'' : Shared} {db db' : OutboxDb} {read : List ChangeIntent}
  {op : Operation} {intent row : ChangeIntent} {m : String}

-- Some transactions of one process lead from `s` to `s'`.
structure Extends (capacity : Nat) (s s' : Shared) : Prop where
  read       : s.read ⊆ s'.read
  operations : ∃ ops, (system capacity).run s ops = some s'

namespace Extends

theorem refl (s : Shared) : Extends capacity s s where
  read       := List.Subset.refl _
  operations := ⟨[], rfl⟩

theorem trans (h₁ : Extends capacity s s') (h₂ : Extends capacity s' s'') : Extends capacity s s'' where
  read       := List.Subset.trans h₁.read h₂.read
  operations := by
    have ⟨ops₁, h₁⟩ := h₁.operations
    have ⟨ops₂, h₂⟩ := h₂.operations
    exact ⟨ops₁ ++ ops₂, TransitionSystem.run_append_eq_some_iff.mpr ⟨_, h₁, h₂⟩⟩

theorem single (hi : ∀ i, op.presents = some i → i ∈ s.read) (hr : s.read ⊆ (s.perform capacity op).read) :
    Extends capacity s (s.perform capacity op) where
  read       := hr
  operations := by
    refine ⟨[op], TransitionSystem.run_cons ▸ Option.bind_eq_some_iff.mpr ⟨_, ?_, rfl⟩⟩
    cases h : op.presents <;> simp [system, h, hi]

theorem get (h : db.row? m = some row) :
    Extends capacity ⟨db, read⟩ ⟨db, row :: read⟩ := by
  have e := @single capacity (⟨db, read⟩) (.get m) (fun _ h => by cases h)
    (List.subset_append_right _ _)
  simpa [perform, h] using e

theorem markCommitting (h : intent ∈ read) :
    Extends capacity ⟨db, read⟩ ⟨(db.markCommitting intent).1, read⟩ :=
  @single _ _ (.markCommitting intent) (fun _ hp => Option.some.inj hp ▸ h) (List.Subset.refl _)

theorem markReady (h : intent ∈ read) : Extends capacity ⟨db, read⟩ ⟨(db.markReady intent).1, read⟩ :=
  @single _ _ (.markReady intent) (fun _ hp => Option.some.inj hp ▸ h) (List.Subset.refl _)

end Extends

theorem row?_of_fenced {expected : OutboxState} {f : ChangeIntent → ChangeIntent} {h}
    (hf : (db.fenced intent expected f h).2 = some row) :
    (db.fenced intent expected f h).1.row? intent.messageId = some row := by
  unfold OutboxDb.fenced at hf ⊢
  dsimp only at hf ⊢
  split at hf
  case isTrue  => exact hf
  case isFalse => cases hf

theorem recoverIntent_extends {sha256 : Bytes → String} {p p' : Project} {snapshot : ChangeIntent}
    (h : recoverIntent sha256 p snapshot = .ok p') :
    ∃ read', Extends capacity ⟨p.db, read⟩ ⟨p'.db, read'⟩ := by
  have ⟨_, _, h⟩ := Except.bind_eq_ok_iff.mp h
  split at h
  case h_1 => cases h; exact ⟨_, .refl _⟩
  case h_2 intent hr =>
  have got : Extends capacity ⟨p.db, read⟩ ⟨p.db, intent :: read⟩ := .get hr
  split at h
  case isTrue => cases h; exact ⟨_, .refl _⟩
  split at h
  case h_1 =>
    have dropped : Extends capacity ⟨p.db, intent :: read⟩ ⟨(p.db.dropReserved intent).1, intent :: read⟩ :=
      @Extends.single capacity _ (.dropReserved intent) (fun _ hp => Option.some.inj hp ▸ List.mem_cons_self)
        (List.Subset.refl _)
    dsimp only at h
    split at h <;> cases h <;> exact ⟨_, got.trans dropped⟩
  case h_2 => cases h; exact ⟨_, .refl _⟩
  case h_3 =>
    have taken : Extends capacity ⟨p.db, intent :: read⟩ ⟨(p.db.takeFence intent).1, intent :: read⟩ :=
      @Extends.single capacity _ (.takeFence intent) (fun _ hp => Option.some.inj hp ▸ List.mem_cons_self)
        (List.Subset.refl _)
    split at h
    case h_1 db ht => cases h; exact ⟨_, ht ▸ got.trans taken⟩
    case h_2 db owned ht =>
      cases h
      rw [ht] at taken
      have hrow : db.row? intent.messageId = some owned := by
        have := row?_of_fenced (congrArg Prod.snd ht)
        rwa [show (p.db.fenced _ _ _ _).1 = db from congrArg Prod.fst ht] at this
      have own : Extends capacity ⟨db, intent :: read⟩ ⟨db, owned :: intent :: read⟩ := .get hrow
      have ready : Extends capacity ⟨db, owned :: intent :: read⟩
          ⟨(db.markReady owned).1, owned :: intent :: read⟩ := .markReady List.mem_cons_self
      have rebase : Extends capacity ⟨db, owned :: intent :: read⟩
          ⟨(db.transition owned .rebaseRequired .committing).1, owned :: intent :: read⟩ :=
        @Extends.single capacity _ (.requireRebase owned) (fun _ hp => Option.some.inj hp ▸ List.mem_cons_self)
          (List.Subset.refl _)
      have before := got.trans (taken.trans own)
      unfold recoverCommitting
      generalize landed sha256 _ _ = out
      obtain ⟨files, landed⟩ := out
      cases landed with
      | true  => dsimp only; split <;> exact ⟨_, before.trans ready⟩
      | false => dsimp only; split <;> exact ⟨_, before.trans rebase⟩
  case h_4 => cases h; exact ⟨_, .refl _⟩
  case h_5 => cases h; exact ⟨_, .refl _⟩

theorem reserve_extends {r : Reservation} {result : ReserveResult}
    (h : r.perform capacity db = .ok (db', result)) : ∃ read', Extends capacity ⟨db, read⟩ ⟨db', read'⟩ ∧
      ∀ intent, result = .reserved intent → intent ∈ read' := by
  have e := @Extends.single capacity (⟨db, read⟩) (.reserve r) fun _ h => by cases h
  cases result with
  | refused code    =>
    simp only [perform, h] at e
    exact ⟨_, e (List.Subset.refl _), fun _ h => by cases h⟩
  | reserved intent =>
    simp only [perform, h] at e
    exact ⟨_, e (List.subset_cons_self _ _), fun _ h => by cases h; exact List.mem_cons_self⟩

-- A transition answers with what the row has become.
theorem transition_extends {state expected : OutboxState} (h) (hr : intent ∈ read)
    (op : Operation) (presents : op.presents = some intent)
    (perform : ∀ read, (⟨db, read⟩ : Shared).perform capacity op =
      ⟨(db.transition intent state expected h).1, read⟩) :
    ∃ read', Extends capacity ⟨db, read⟩ ⟨(db.transition intent state expected h).1, read'⟩ ∧
      read ⊆ read' ∧ ∀ row, (db.transition intent state expected h).2 = some row → row ∈ read' := by
  have e : Extends capacity ⟨db, read⟩ ⟨(db.transition intent state expected h).1, read⟩ := by
    have e := @Extends.single capacity (⟨db, read⟩) op fun i hp => by
      cases presents.symm.trans hp
      exact hr
    rw [perform] at e
    exact e (List.Subset.refl _)
  cases ht : (db.transition intent state expected h).2 with
  | none     => exact ⟨read, e, List.Subset.refl _, fun _ h => by cases h⟩
  | some row =>
    refine ⟨row :: read, e.trans (.get (row?_of_fenced ht)), List.subset_cons_self _ _, fun _ h => ?_⟩
    cases h
    exact List.mem_cons_self

theorem markCommitting_extends (hr : intent ∈ read) (h : db.markCommitting intent = (db', result)) :
    ∃ read', Extends capacity ⟨db, read⟩ ⟨db', read'⟩ ∧ read ⊆ read' ∧
      ∀ row, result = some row → row ∈ read' := by
  have := @transition_extends capacity db _ _ .committing .reserved
    (by decide) hr (.markCommitting intent) rfl fun _ => rfl
  rw [show db.transition intent .committing .reserved = _ from h] at this
  exact this

theorem markReady_extends (hr : intent ∈ read) (h : db.markReady intent = (db', result)) :
    ∃ read', Extends capacity ⟨db, read⟩ ⟨db', read'⟩ ∧ read ⊆ read' ∧
      ∀ row, result = some row → row ∈ read' := by
  have := @transition_extends capacity db _ _ .ready .committing
    (by decide) hr (.markReady intent) rfl fun _ => rfl
  rw [show db.transition intent .ready .committing = _ from h] at this
  exact this

theorem begin_extends {sha256 : Bytes → String} {call : CommitCall} {p p' : Project} {pos : Position}
    (h : call.begin sha256 capacity p = (p', pos)) :
    ∃ read', Extends capacity ⟨p.db, read⟩ ⟨p'.db, read'⟩ ∧ pos.intents ⊆ read' := by
  unfold CommitCall.begin at h
  split at h
  case h_1 => cases h; exact ⟨_, .refl _, List.nil_subset _⟩
  split at h
  case h_1 => cases h; exact ⟨_, .refl _, List.nil_subset _⟩
  split at h
  case h_1 => cases h; exact ⟨_, .refl _, List.nil_subset _⟩
  split at h
  case h_1 => cases h; exact ⟨_, .refl _, List.nil_subset _⟩
  case h_2 hres =>
    cases h
    have ⟨_, e, _⟩ := @reserve_extends capacity _ _ read (⟨_, _, _, _, _, _, _, _⟩) _ hres
    exact ⟨_, e, List.nil_subset _⟩
  case h_3 hres =>
    cases h
    have ⟨_, e, hi⟩ := @reserve_extends capacity _ _ read (⟨_, _, _, _, _, _, _, _⟩) _ hres
    exact ⟨_, e, by simpa [Position.intents] using hi⟩

-- Every step of `commit` is a transaction or none, and it presents only what it has read.
theorem commit_extends {sha256 : Bytes → String} {call : CommitCall} {p p' : Project}
    {pos pos' : Position} {e : Event} (h : call.step sha256 capacity p pos e = some (p', pos'))
    (hr : pos.intents ⊆ read) :
    ∃ read', Extends capacity ⟨p.db, read⟩ ⟨p'.db, read'⟩ ∧ pos'.intents ⊆ read' := by
  unfold CommitCall.step at h
  split at h
  case h_1 => exact begin_extends (Option.some.inj h)
  case h_2 =>
    split at h
    case h_1 => cases h; exact ⟨_, .refl _, hr⟩
    case h_2 => split at h <;> cases h <;> exact ⟨_, .refl _, hr⟩
  case h_3 | h_4 =>
    have ⟨_, _, h⟩ := Option.map_eq_some_iff.mp h
    cases h
    exact ⟨_, .refl _, hr⟩
  case h_5 =>
    split at h
    case h_1 ht =>
      cases h
      have ⟨_, e, _, _⟩ := @markCommitting_extends capacity _ _ _ _ _ (hr List.mem_cons_self) ht
      exact ⟨_, e, List.nil_subset _⟩
    case h_2 ht =>
      cases h
      have ⟨_, e, _, hi⟩ := @markCommitting_extends capacity _ _ _ _ _ (hr List.mem_cons_self) ht
      exact ⟨_, e, by simpa [Position.intents] using hi _ rfl⟩
  case h_6 =>
    dsimp only at h
    split at h <;> cases h <;> exact ⟨_, .refl _, hr⟩
  case h_7 =>
    split at h
    case h_1 ht =>
      cases h
      have ⟨_, e, _, _⟩ := @markReady_extends capacity _ _ _ _ _ (hr List.mem_cons_self) ht
      exact ⟨_, e, List.nil_subset _⟩
    case h_2 ht =>
      cases h
      have ⟨_, e, _, hi⟩ := @markReady_extends capacity _ _ _ _ _ (hr List.mem_cons_self) ht
      exact ⟨_, e, by simpa [Position.intents] using hi _ rfl⟩
  case h_8 => cases h; exact ⟨_, .refl _, List.nil_subset _⟩
  case h_9 | h_10 | h_11 => cases h; exact ⟨_, .refl _, hr⟩
  case h_12 =>
    split at h
    case h_1 => cases h; exact ⟨_, .refl _, List.nil_subset _⟩
    case h_2 hrow =>
      split at h
      case isFalse => cases h; exact ⟨_, .refl _, List.nil_subset _⟩
      case isTrue  =>
        cases h
        exact ⟨_, .get hrow, by simp [Position.intents]⟩
  case h_13 _ i =>
    cases h
    refine ⟨_, @Extends.single capacity ⟨p.db, read⟩ (.abandonReserved i) (fun _ hp => ?_) (List.Subset.refl _),
      List.nil_subset _⟩
    cases hp
    exact hr List.mem_cons_self
  case h_14 => cases h

theorem item_extends {sha256 : Bytes → String} {c : Item} {p : Project} {prepared : Prepared}
    (h : c.reserve sha256 capacity p = some (db', prepared)) :
    ∃ read', Extends capacity ⟨p.db, read⟩ ⟨db', read'⟩ ∧ prepared.intent ∈ read' := by
  unfold Item.reserve at h
  split at h
  case h_1 => cases h
  split at h
  case h_2 => cases h
  case h_1 hres =>
    cases h
    have ⟨_, e, hi⟩ := @reserve_extends capacity _ _ read (⟨_, _, _, _, _, _, _, _⟩) _ hres
    exact ⟨_, e, hi _ rfl⟩

theorem body_extends {sha256 : Bytes → String} {b : Body} {p p' : Project} {next : Option Body} {e : Event}
    (h : b.step sha256 capacity p e = some (p', next)) (hr : b.prepared.map (·.intent) ⊆ read) :
    ∃ read', Extends capacity ⟨p.db, read⟩ ⟨p'.db, read'⟩ ∧
      ∀ b', next = some b' → b'.prepared.map (·.intent) ⊆ read' := by
  unfold Body.step at h
  split at h
  case h_1 => cases h; exact ⟨_, .refl _, fun _ h => by cases h; exact hr⟩
  case h_2 =>
    split at h
    case h_1 => cases h; exact ⟨_, .refl _, fun _ h => by cases h⟩
    case h_2 hres =>
      cases h
      have ⟨read', e, hi⟩ := @item_extends _ _ read _ _ _ _ hres
      refine ⟨_, e, fun _ h => ?_⟩
      cases h
      simp only [Body.prepared, List.map_append, List.map_cons, List.map_nil, List.append_subset,
        List.cons_subset]
      exact ⟨List.Subset.trans hr e.read, hi, List.nil_subset _⟩
  case h_3 =>
    split at h
    case h_1 => cases h; exact ⟨_, .refl _, fun _ h => by cases h; exact hr⟩
    case h_2 =>
      split at h
      · cases h; exact ⟨_, .refl _, fun _ h => by cases h⟩
      · cases h; exact ⟨_, .refl _, fun _ h => by cases h; exact hr⟩
  case h_4 | h_5 =>
    have ⟨_, _, h⟩ := Option.map_eq_some_iff.mp h
    cases h
    exact ⟨_, .refl _, fun _ h => by cases h; exact hr⟩
  case h_6 =>
    have hi := hr (List.mem_map_of_mem (List.mem_append_right _ (List.mem_singleton_self _)))
    split at h
    case h_1 ht =>
      cases h
      have ⟨_, e, _, _⟩ := @markCommitting_extends capacity _ _ _ _ _ hi ht
      exact ⟨_, e, fun _ h => by cases h⟩
    case h_2 ht =>
      cases h
      have ⟨read', e, hs, hi⟩ := @markCommitting_extends capacity _ _ _ _ _ hi ht
      refine ⟨read', e, fun _ h => ?_⟩
      cases h
      simp only [Body.prepared, List.map_append, List.map_cons, List.map_nil, List.append_subset,
        List.cons_subset] at hr ⊢
      exact ⟨List.Subset.trans hr.1 hs, hi _ rfl, List.nil_subset _⟩
  case h_7 => cases h; exact ⟨_, .refl _, fun _ h => by cases h; simpa [Body.prepared] using hr⟩
  case h_8 =>
    split at h
    case h_1 => cases h; exact ⟨_, .refl _, fun _ h => by cases h⟩
    case h_2 =>
      cases h
      refine ⟨_, .refl _, fun _ h => ?_⟩
      cases h
      split <;> simpa [Body.prepared] using hr
  case h_9 =>
    have ⟨_, _, h⟩ := Option.map_eq_some_iff.mp h
    cases h
    exact ⟨_, .refl _, fun _ h => by cases h; simpa [Body.prepared] using hr⟩
  case h_10 =>
    have hi := hr (List.mem_map_of_mem (List.mem_append_right _ List.mem_cons_self))
    split at h
    case h_1 ht =>
      cases h
      have ⟨_, e, _, _⟩ := @markReady_extends capacity _ _ _ _ _ hi ht
      exact ⟨_, e, fun _ h => by cases h⟩
    case h_2 ht =>
      cases h
      have ⟨read', e, hs, hi⟩ := @markReady_extends capacity _ _ _ _ _ hi ht
      refine ⟨read', e, fun _ h => ?_⟩
      cases h
      simp only [Body.prepared, List.map_append, List.map_cons, List.append_subset,
        List.cons_subset] at hr ⊢
      exact ⟨List.Subset.trans hr.1 hs, hi _ rfl, List.Subset.trans hr.2.2 hs⟩
  case h_11 => cases h; exact ⟨_, .refl _, fun _ h => by cases h; simpa [Body.prepared] using hr⟩
  case h_12 => cases h; exact ⟨_, .refl _, fun _ h => by cases h⟩
  case h_13 => cases h

-- So is every step of `commit_many`, with its rollback.
theorem batch_extends {sha256 : Bytes → String} {call : BatchCall} {p p' : Project}
    {pos pos' : BatchPosition} {e : Event} (h : call.step sha256 capacity p pos e = some (p', pos'))
    (hr : pos.intents ⊆ read) :
    ∃ read', Extends capacity ⟨p.db, read⟩ ⟨p'.db, read'⟩ ∧ pos'.intents ⊆ read' := by
  unfold BatchCall.step at h
  split at h
  case h_1 =>
    cases h
    refine ⟨_, .refl _, ?_⟩
    unfold BatchCall.begin
    split
    · exact List.nil_subset _
    · dsimp only
      split <;> exact List.nil_subset _
  case h_2 => split at h <;> cases h; exact ⟨_, .refl _, List.nil_subset _⟩
  case h_3 => cases h; exact ⟨_, .refl _, List.nil_subset _⟩
  case h_4 body _ =>
    have ⟨⟨_, next⟩, hb, h⟩ := Option.map_eq_some_iff.mp h
    cases h
    have ⟨_, e, hn⟩ := body_extends hb hr
    refine ⟨_, e, ?_⟩
    cases next with
    | none   => exact List.nil_subset _
    | some b => exact hn b rfl
  case h_5 => split at h <;> cases h; exact ⟨_, .refl _, List.nil_subset _⟩
  case h_6 =>
    split at h
    case h_1 => cases h
    case h_2 => split at h <;> cases h; exact ⟨_, .refl _, List.nil_subset _⟩
  case h_7 | h_8 | h_9 | h_11 | h_12 => cases h; exact ⟨_, .refl _, List.nil_subset _⟩
  case h_10 body _ =>
    cases h
    refine ⟨_, @Extends.single capacity ⟨p.db, read⟩ (.discard body.prepared) (fun _ hp => ?_)
      (List.Subset.refl _), List.nil_subset _⟩
    cases hp
  case h_13 => cases h

end Shared
end Outbox
