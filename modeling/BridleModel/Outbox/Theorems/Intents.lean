import Mathlib.Logic.Relation
import BridleModel.Outbox.System

namespace Outbox

-- The states that may come after a state
def OutboxState.successors : OutboxState → List OutboxState
  | reserved                   => [committing]
  | committing                 => [ready, rebaseRequired]
  | ready                      => [delivered]
  | delivered | rebaseRequired => []

namespace ChangeIntent

-- An intent with which nothing is left to be done
def settled (row : ChangeIntent) : Bool :=
  row.state = .delivered ∨ row.supersededBy ≠ none

-- What an update does to the row that it finds.
inductive Turn : ChangeIntent → ChangeIntent → Prop
  | moved {s : OutboxState} (current : row.supersededBy = none) (next : s ∈ row.state.successors) :
      Turn row { row with state := s }
  | fenced (current : row.supersededBy = none) (state : row.state = .committing) :
      Turn row { row with fenceToken := row.fenceToken + 1 }
  | retried {time : String} (current : row.supersededBy = none) (state : row.state = .ready) :
      Turn row { row with attempt := row.attempt + 1, nextRetryAt := some time }
  | superseded {m : String} (current : row.supersededBy = none) (state : row.state = .rebaseRequired) :
      Turn row { row with supersededBy := some m }

def Evolves : ChangeIntent → ChangeIntent → Prop :=
  Relation.ReflTransGen Turn

variable {row row' row'' : ChangeIntent}

namespace Turn

theorem messageId_eq (t : Turn row row') : row'.messageId = row.messageId := by
  cases t <;> rfl

theorem not_settled (t : Turn row row') : row.settled = false := by
  cases t with
  | moved current next =>
    have : row.state ≠ .delivered := fun h => by simp [h, OutboxState.successors] at next
    simp [settled, current, this]
  | fenced current state | retried current state | superseded current state =>
    simp [settled, current, state]

theorem fenceToken_le (t : Turn row row') : row.fenceToken ≤ row'.fenceToken := by
  cases t with
  | fenced => exact Nat.le_succ _
  | moved | retried | superseded => exact le_refl _

theorem state_next (t : Turn row row') : row'.state = row.state ∨ row'.state ∈ row.state.successors := by
  cases t with
  | moved _ next => exact .inr next
  | fenced | retried | superseded => exact .inl rfl

-- From READY on the fence token stays.
theorem of_ready (t : Turn row row') (h : row.state = .ready ∨ row.state = .delivered) :
    (row'.state = .ready ∨ row'.state = .delivered) ∧ row'.fenceToken = row.fenceToken := by
  cases t with
  | moved current next =>
    cases h with
    | inl h => simp [h, OutboxState.successors] at next; exact ⟨.inr next, rfl⟩
    | inr h => simp [h, OutboxState.successors] at next
  | fenced _ state     => simp [state] at h
  | retried _ state    => exact ⟨.inl state, rfl⟩
  | superseded _ state => simp [state] at h

end Turn

namespace Evolves

theorem messageId_eq (e : Evolves row row') : row'.messageId = row.messageId := by
  induction e with
  | refl        => rfl
  | tail _ t hi => exact t.messageId_eq.trans hi

theorem fenceToken_le (e : Evolves row row') : row.fenceToken ≤ row'.fenceToken := by
  induction e with
  | refl        => exact le_refl _
  | tail _ t hi => exact hi.trans t.fenceToken_le

theorem of_ready (e : Evolves row row') (h : row.state = .ready) :
    (row'.state = .ready ∨ row'.state = .delivered) ∧ row'.fenceToken = row.fenceToken := by
  induction e with
  | refl        => exact ⟨.inl h, rfl⟩
  | tail _ t hi => exact ⟨(t.of_ready hi.1).1, (t.of_ready hi.1).2.trans hi.2⟩

theorem of_settled (e : Evolves row row') (h : row.settled = true) : row' = row := by
  cases Relation.ReflTransGen.cases_head e with
  | inl h => exact h.symm
  | inr t =>
    have ⟨_, t, _⟩ := t
    simp [t.not_settled] at h

end Evolves
end ChangeIntent

-- What an operation does to the row of the message `m`; `drawn` is the message id that it has drawn.
inductive Change (drawn : Option String) (m : String) : Option ChangeIntent → Option ChangeIntent → Prop
  | same : Change drawn m row? row?
  | gone : Change drawn m row? none
  | turn (t : row.Turn row') : Change drawn m (some row) (some row')
  | reserved (draw : drawn = some m) (state : row.state = .reserved) (current : row.supersededBy = none) :
      Change drawn m none (some row)

namespace OutboxDb

-- Only a row that waits for a rebase is superseded.
def Sound (db : OutboxDb) : Prop :=
  ∀ row ∈ db, row.supersededBy ≠ none → row.state = .rebaseRequired

variable {db db' : OutboxDb} {intent row : ChangeIntent} {m : String} {drawn : Option String}

theorem change_modify {p : ChangeIntent → Bool} {f : ChangeIntent → ChangeIntent} {h}
    (hf : ∀ row, (f row).messageId = row.messageId) (turn : ∀ row ∈ db, p row → row.Turn (f row)) :
    Change drawn m (db.row? m) (row? (db.modify p f h) m) := by
  rw [row?_modify hf]
  cases hr : db.row? m with
  | none     => exact .same
  | some row =>
    rw [Option.map_some]
    split
    case isTrue hp => exact .turn <| turn row (row?_eq_some_iff.mp hr).1 hp
    case isFalse   => exact .same

theorem change_delete {p : ChangeIntent → Bool} : Change drawn m (db.row? m) (row? (db.delete p) m) := by
  rw [row?_delete]
  cases db.row? m with
  | none     => exact .same
  | some row =>
    rw [Option.filter_some]
    split
    · exact .same
    · exact .gone

theorem change_fenced {expected : OutboxState} {f : ChangeIntent → ChangeIntent} {h}
    (hf : ∀ row, (f row).messageId = row.messageId)
    (turn : ∀ row : ChangeIntent, row.state = expected → row.fenceToken = intent.fenceToken →
      row.supersededBy = none → row.Turn (f row)) :
    Change drawn m (db.row? m) ((db.fenced intent expected f h).1.row? m) := by
  unfold fenced
  dsimp only
  refine change_modify hf fun row _ hp => ?_
  simp only [decide_eq_true_eq] at hp
  exact turn row hp.2.1 hp.2.2.1 hp.2.2.2

theorem change_transition {state expected : OutboxState} (h) (next : state ∈ expected.successors) :
    Change drawn m (db.row? m) ((db.transition intent state expected h).1.row? m) :=
  change_fenced (f := ({ · with state })) (fun _ => rfl) fun _ hs _ hc => .moved hc (hs ▸ next)

theorem change_takeFence : Change drawn m (db.row? m) ((db.takeFence intent).1.row? m) :=
  change_fenced (fun _ => rfl) fun _ hs hf hc => hf ▸ .fenced hc hs

theorem change_publish (hs : db.Sound) {accepted : Bool} {now nextRetryAt : String} :
    Change drawn m (db.row? m) ((db.publish intent accepted now nextRetryAt).row? m) := by
  unfold publish
  split
  · exact .same
  split
  · exact .same
  split
  · exact change_transition (by decide) (by decide)
  · refine change_modify (fun _ => rfl) fun row hr hp => ?_
    simp only [decide_eq_true_eq] at hp
    refine .retried ?_ hp.2
    by_contra hn
    cases (hs row hr hn).symm.trans hp.2

theorem change_supersede : Change drawn m (db.row? m) ((db.supersede row intent.messageId).row? m) := by
  refine change_modify (f := ({ · with supersededBy := some intent.messageId })) (fun _ => rfl) fun row _ hp => ?_
  simp only [decide_eq_true_eq] at hp
  exact .superseded hp.2.2 hp.2.1

-- A granted reservation: what it has checked, and what it writes.
theorem reserve_writes {r : Reservation} {capacity : Nat} {result : ReserveResult}
    (h : r.perform capacity db = .ok (db', result)) :
    (db' = db ∧ ∃ code, result = .refused code) ∨
      ∃ intent blocker, result = .reserved intent ∧ intent.messageId = r.messageId ∧
        intent.state = .reserved ∧ intent.supersededBy = none ∧
        blocker = db.lookup (.inflight intent.relativePath) ∧
        (∀ row, blocker = some row → row.state = .rebaseRequired) ∧
        db.activeCount - replacedCount blocker < capacity ∧
        (blocker.elim db (db.supersede · intent.messageId)).insert? intent = some db' := by
  have ⟨normalized, _, h⟩ := Except.bind_eq_ok_iff.mp h
  have ⟨_, _, h⟩ := Except.bind_eq_ok_iff.mp h
  dsimp only at h
  split at h
  case isTrue => cases h; exact .inl ⟨rfl, _, rfl⟩
  case isFalse free =>
  split at h
  case isTrue => cases h; exact .inl ⟨rfl, _, rfl⟩
  case isFalse waits =>
  split at h
  case h_1        => cases h
  case h_2 insert =>
    cases h
    refine .inr ⟨_, _, rfl, rfl, rfl, rfl, rfl, fun row hr => ?_, Nat.lt_of_not_le free, insert⟩
    simpa [hr] using waits

theorem change_reserve {r : Reservation} {capacity : Nat} {result : ReserveResult}
    (h : r.perform capacity db = .ok (db', result)) :
    Change (some r.messageId) m (db.row? m) (db'.row? m) := by
  cases reserve_writes h with
  | inl refused => exact refused.1 ▸ .same
  | inr granted =>
    have ⟨intent, blocker, _, hm, hs, hc, hb, _, _, insert⟩ := granted
    have reserves := @Reserves.of_insert db _ _ (by simp [ChangeIntent.inflight, hs, hc, OutboxState.blocking])
      (hb ▸ insert)
    by_cases he : m = intent.messageId
    case pos =>
      rw [he, reserves.fresh, reserves.found]
      exact .reserved (hm ▸ rfl) hs hc
    case neg =>
      rw [row?_insert insert he]
      cases blocker with
      | none   => exact .same
      | some b => exact change_supersede

theorem Sound.of_change (h : db.Sound) (hc : ∀ m, Change drawn m (db.row? m) (db'.row? m)) : db'.Sound := by
  intro row hr hs
  have hc := hc row.messageId
  rw [row?_of_mem hr] at hc
  cases hb : db.row? row.messageId with
  | none      =>
    rw [hb] at hc
    cases hc with
    | reserved _ _ current => exact absurd current hs
  | some row₀ =>
    rw [hb] at hc
    have hm := (row?_eq_some_iff.mp hb).1
    cases hc with
    | same   => exact h _ hm hs
    | turn t =>
      cases t with
      | moved current | fenced current | retried current => exact absurd current hs
      | superseded _ state                               => exact state

theorem activeCount_fenced {expected : OutboxState} {f : ChangeIntent → ChangeIntent} {h}
    (he : expected ≠ .delivered) : (db.fenced intent expected f h).1.activeCount ≤ db.activeCount := by
  unfold fenced
  dsimp only
  refine Table.rowcount_modify_le (t := db) (q := (·.active)) fun row _ hp _ => ?_
  simp only [decide_eq_true_eq] at hp
  simp [ChangeIntent.active, hp.2.1, hp.2.2.2, he]

theorem activeCount_transition {state expected : OutboxState} (h) (he : expected ≠ .delivered) :
    (db.transition intent state expected h).1.activeCount ≤ db.activeCount :=
  activeCount_fenced he

theorem activeCount_takeFence : (db.takeFence intent).1.activeCount ≤ db.activeCount :=
  activeCount_fenced (by decide)

theorem activeCount_delete {p : ChangeIntent → Bool} : activeCount (db.delete p) ≤ db.activeCount :=
  List.Sublist.countP_le List.filter_sublist

theorem activeCount_publish {accepted : Bool} {now nextRetryAt : String} :
    (db.publish intent accepted now nextRetryAt).activeCount ≤ db.activeCount := by
  unfold publish
  split
  · exact le_refl _
  split
  · exact le_refl _
  split
  · exact activeCount_transition (by decide) (by decide)
  · exact Table.rowcount_modify_le (t := db) (q := (·.active)) fun _ _ _ ha => ha

theorem activeCount_supersede (hr : row ∈ db) (hs : row.state = .rebaseRequired) (hc : row.supersededBy = none) :
    (db.supersede row m).activeCount < db.activeCount := by
  refine Table.rowcount_modify_lt (t := db) (q := (·.active)) (a := row) ?_ hr ?_ ?_ ?_
  · simp [ChangeIntent.active]
  · simp [hs, hc]
  · simp [ChangeIntent.active, hs, hc]
  · simp [ChangeIntent.active]

theorem activeCount_insert (h : db.insert? row = some db') : db'.activeCount ≤ db.activeCount + 1 := by
  simp only [activeCount, Table.insert?_rows h, List.countP_append]
  exact Nat.add_le_add_left List.countP_le_length _

theorem activeCount_reserve {r : Reservation} {capacity : Nat} {result : ReserveResult}
    (hd : db.activeCount ≤ capacity) (h : r.perform capacity db = .ok (db', result)) :
    db'.activeCount ≤ capacity := by
  cases reserve_writes h with
  | inl refused => exact refused.1 ▸ hd
  | inr granted =>
    have ⟨intent, blocker, _, _, _, _, hb, waits, free, insert⟩ := granted
    have hi := activeCount_insert insert
    cases blocker with
    | none     =>
      simp only [Option.elim_none, replacedCount, Option.any_none] at hi free
      exact hi.trans free
    | some row =>
      have hl := Table.lookup_eq_some_iff.mp hb.symm
      have hw := waits row rfl
      have hc : row.supersededBy = none := by
        have := (ChangeIntent.inflight_mem_keys.mp hl.2).1
        simp only [ChangeIntent.inflight, decide_eq_true_eq] at this
        exact this.1
      have hlt := activeCount_supersede (m := intent.messageId) hl.1 hw hc
      simp only [Option.elim_some, replacedCount, Option.any_some, hw, decide_true, if_true] at hi free
      omega

-- A condition that the row does not meet
theorem row?_modify_other {p : ChangeIntent → Bool} {f : ChangeIntent → ChangeIntent} {h}
    (hf : ∀ row, (f row).messageId = row.messageId) (hp : ∀ row, db.row? m = some row → p row = false) :
    row? (db.modify p f h) m = db.row? m := by
  rw [row?_modify hf]
  cases hr : db.row? m with
  | none     => rfl
  | some row => simp [hp row hr]

theorem row?_delete_other {p : ChangeIntent → Bool} (hp : ∀ row, db.row? m = some row → p row = false) :
    row? (db.delete p) m = db.row? m := by
  rw [row?_delete]
  cases hr : db.row? m with
  | none     => rfl
  | some row => simp [hp row hr]

theorem row?_fenced_stale {expected : OutboxState} {f : ChangeIntent → ChangeIntent} {h}
    (hf : ∀ row, (f row).messageId = row.messageId)
    (stale : ∀ row, db.row? m = some row → intent.fenceToken < row.fenceToken) :
    (db.fenced intent expected f h).1.row? m = db.row? m := by
  unfold fenced
  dsimp only
  refine row?_modify_other hf fun row hr => ?_
  simp [(stale row hr).ne']

theorem row?_transition_stale {state expected : OutboxState} (h)
    (stale : ∀ row, db.row? m = some row → intent.fenceToken < row.fenceToken) :
    (db.transition intent state expected h).1.row? m = db.row? m :=
  row?_fenced_stale (fun _ => rfl) stale

theorem row?_takeFence_stale (stale : ∀ row, db.row? m = some row → intent.fenceToken < row.fenceToken) :
    (db.takeFence intent).1.row? m = db.row? m :=
  row?_fenced_stale (fun _ => rfl) stale

theorem takeFence_granted (h : (db.takeFence intent).2 ≠ none) :
    ∃ row, (db.takeFence intent).1.row? intent.messageId = some row ∧
      intent.fenceToken < row.fenceToken := by
  have hcount : db.rowcount (fun row => row.messageId = intent.messageId ∧ row.state = .committing ∧
      row.fenceToken = intent.fenceToken ∧ row.supersededBy = none) = 1 := by
    by_contra hn
    exact h (if_neg hn)
  have ⟨row, hr, hp⟩ :=
    (Table.rowcount_eq_one_iff (k := IntentKey.message intent.messageId) fun row hp => by
      simp only [decide_eq_true_eq] at hp
      exact ChangeIntent.message_mem_keys.mpr hp.1).mp hcount
  simp only [decide_eq_true_eq] at hp
  have held : db.Held intent row .committing := ⟨hr, hp.2.1, hp.2.2.1, hp.2.2.2⟩
  have ⟨_, hf, advances⟩ := takeFence_advances held
  rw [hf, ← hp.1]
  exact ⟨_, advances.found, Nat.lt_succ_self _⟩

theorem inflight_le_one {path : String} :
    db.rowcount (fun row => row.inflight ∧ row.relativePath = path) ≤ 1 :=
  Table.rowcount_le_one (k := IntentKey.inflight path) fun row h =>
    ChangeIntent.inflight_mem_keys.mpr (by simpa using h)

end OutboxDb

namespace Shared

variable {capacity : Nat} {s s' : Shared} {op : Operation} {ops : List Operation} {i row : ChangeIntent}
  {m : String}

theorem step_eq_some_iff : (system capacity).step s op = some s' ↔
    (∀ i, op.presents = some i → i ∈ s.read) ∧ s.perform capacity op = s' := by
  cases h : op.presents <;> simp [system, h]

theorem perform_change (h : s.db.Sound) :
    Change op.draws m (s.db.row? m) ((s.perform capacity op).db.row? m) := by
  cases op with
  | reserve r =>
    unfold perform
    dsimp only
    split
    case h_1 hr => exact OutboxDb.change_reserve hr
    case h_2 hr => exact OutboxDb.change_reserve hr
    case h_3    => exact .same
  | get                          => exact .same
  | markCommitting | markReady | requireRebase =>
    exact OutboxDb.change_transition (by decide) (by decide)
  | takeFence                    => exact OutboxDb.change_takeFence
  | dropReserved | abandonReserved | discard => exact OutboxDb.change_delete
  | publish                      => exact OutboxDb.change_publish h

theorem perform_activeCount (h : s.db.activeCount ≤ capacity) :
    (s.perform capacity op).db.activeCount ≤ capacity := by
  cases op with
  | reserve r =>
    unfold perform
    dsimp only
    split
    case h_1 hr => exact OutboxDb.activeCount_reserve h hr
    case h_2 hr => exact OutboxDb.activeCount_reserve h hr
    case h_3    => exact h
  | get       => exact h
  | markCommitting | markReady | requireRebase =>
    exact (OutboxDb.activeCount_transition (by decide) (by decide)).trans h
  | takeFence => exact OutboxDb.activeCount_takeFence.trans h
  | dropReserved | abandonReserved | discard => exact OutboxDb.activeCount_delete.trans h
  | publish   => exact OutboxDb.activeCount_publish.trans h

theorem mem_read_perform (h : i ∈ (s.perform capacity op).read) :
    i ∈ s.read ∨ i ∈ (s.perform capacity op).db := by
  cases op with
  | reserve r =>
    unfold perform at h ⊢
    dsimp only at h ⊢
    split at h
    case h_2 hr => exact .inl h
    case h_3    => exact .inl h
    case h_1 db intent hr =>
      cases List.mem_cons.mp h with
      | inr h => exact .inl h
      | inl h =>
        cases OutboxDb.reserve_writes hr with
        | inl refused => cases refused.2.choose_spec
        | inr granted =>
          have ⟨_, _, he, _, _, _, _, _, _, insert⟩ := granted
          cases he
          exact .inr <| (Table.mem_insert? insert).mpr (.inr h)
  | get m =>
    cases List.mem_append.mp h with
    | inl h => exact .inr (OutboxDb.row?_eq_some_iff.mp (Option.mem_toList.mp h)).1
    | inr h => exact .inl h
  | markCommitting | markReady | requireRebase | takeFence | dropReserved | abandonReserved | discard
  | publish => exact .inl h

def drawn (ops : List Operation) : List String :=
  ops.filterMap (·.draws)

theorem drawn_append {ops' : List Operation} : drawn (ops ++ ops') = drawn ops ++ drawn ops' :=
  List.filterMap_append

theorem drawn_concat_fresh (h : (drawn (ops ++ [op])).Nodup) (hm : m ∈ drawn ops) : op.draws ≠ some m := by
  intro he
  have hd : m ∈ drawn [op] := List.mem_filterMap.mpr ⟨op, List.mem_singleton_self _, he⟩
  rw [drawn_append] at h
  exact List.disjoint_of_nodup_append h hm hd

-- A row that the table has held at some time: what stands there under its message id has come of it.
structure Past (ops : List Operation) (s : Shared) (i : ChangeIntent) : Prop where
  drawn   : i.messageId ∈ drawn ops
  evolves : ∀ row, s.db.row? i.messageId = some row → i.Evolves row

structure Invariant (capacity : Nat) (ops : List Operation) (s : Shared) : Prop where
  sound    : s.db.Sound
  capacity : s.db.activeCount ≤ capacity
  rows     : ∀ row ∈ s.db, row.messageId ∈ drawn ops
  read     : ∀ i ∈ s.read, Past ops s i

theorem Invariant.past (h : Invariant capacity ops s) (hr : row ∈ s.db) : Past ops s row where
  drawn        := h.rows row hr
  evolves _ hm := by
    rw [OutboxDb.row?_of_mem hr] at hm
    exact Option.some.inj hm ▸ .refl

theorem Past.perform (h : Past ops s i) (hs : s.db.Sound) (fresh : (Shared.drawn (ops ++ [op])).Nodup) :
    Past (ops ++ [op]) (s.perform capacity op) i where
  drawn         := drawn_append ▸ List.mem_append_left _ h.drawn
  evolves row hr := by
    have hc := @perform_change capacity _ op i.messageId hs
    rw [hr] at hc
    cases hb : s.db.row? i.messageId with
    | none     =>
      rw [hb] at hc
      cases hc with
      | reserved draw => exact absurd draw (drawn_concat_fresh fresh h.drawn)
    | some row =>
      rw [hb] at hc
      cases hc with
      | same   => exact h.evolves row hb
      | turn t => exact (h.evolves row hb).tail t

theorem Invariant.perform (h : Invariant capacity ops s) (fresh : (drawn (ops ++ [op])).Nodup) :
    Invariant capacity (ops ++ [op]) (s.perform capacity op) := by
  have sound := h.sound.of_change fun _ => @perform_change capacity _ op _ h.sound
  have rows : ∀ row ∈ (s.perform capacity op).db, row.messageId ∈ drawn (ops ++ [op]) := by
    intro row hr
    have hc := @perform_change capacity _ op row.messageId h.sound
    rw [OutboxDb.row?_of_mem hr] at hc
    cases hb : s.db.row? row.messageId with
    | none      =>
      rw [hb] at hc
      cases hc with
      | reserved draw =>
        rw [drawn_append]
        exact List.mem_append_right _ <| List.mem_filterMap.mpr ⟨op, List.mem_singleton_self _, draw⟩
    | some row₀ =>
      have ⟨hm, he⟩ := OutboxDb.row?_eq_some_iff.mp hb
      rw [drawn_append, ← he]
      exact List.mem_append_left _ (h.rows row₀ hm)
  refine {
    sound
    capacity := perform_activeCount h.capacity
    rows
    read     := fun i hi => ?_
  }
  cases mem_read_perform hi with
  | inl hi => exact (h.read i hi).perform h.sound fresh
  | inr hi =>
    exact {
      drawn        := rows i hi
      evolves _ hm := by
        rw [OutboxDb.row?_of_mem hi] at hm
        exact Option.some.inj hm ▸ .refl
    }

theorem stale_unchanged (h : Invariant capacity ops s) (hi : i ∈ s.read) (hp : op.presents = some i)
    (stale : ∀ row, s.db.row? i.messageId = some row → i.fenceToken < row.fenceToken) :
    (s.perform capacity op).db.row? i.messageId = s.db.row? i.messageId := by
  cases op with
  | reserve | get | discard => cases hp
  | markCommitting | markReady | requireRebase =>
    cases hp
    exact OutboxDb.row?_transition_stale (by decide) stale
  | takeFence =>
    cases hp
    exact OutboxDb.row?_takeFence_stale stale
  | dropReserved | abandonReserved =>
    cases hp
    refine OutboxDb.row?_delete_other fun row hr => ?_
    simp [(stale row hr).ne']
  | publish _ accepted =>
    cases hp
    simp only [perform, OutboxDb.publish]
    split
    case isTrue       => rfl
    case isFalse read =>
    split
    · rfl
    split
    · exact OutboxDb.row?_transition_stale (by decide) stale
    · -- The update does not look at the fence token, but the intent was READY when it was read.
      refine OutboxDb.row?_modify_other (fun _ => rfl) fun row hr => ?_
      have hready : i.state = .ready := by
        by_contra hn
        exact read (.inl hn)
      have he := ((h.read i hi).evolves row hr).of_ready hready
      exact absurd he.2 (stale row hr).ne'

theorem run_invariant (fresh : (drawn ops).Nodup) (h : (system capacity).run .init ops = some s) :
    Invariant capacity ops s := by
  refine TransitionSystem.run_induction (I := fun ops s => (drawn ops).Nodup → Invariant capacity ops s)
    (fun _ => ?_) (fun _ hi hs fresh => ?_) h fresh
  · exact {
      sound    := fun _ h => absurd h Table.not_mem_empty
      capacity := Nat.zero_le _
      rows     := fun _ h => absurd h Table.not_mem_empty
      read     := fun _ h => absurd h List.not_mem_nil
    }
  · cases (step_eq_some_iff.mp hs).2
    have before := (List.nodup_append.mp (drawn_append ▸ fresh)).1
    exact (hi before).perform fresh

theorem run_past {before later : List Operation} (fresh : (drawn (before ++ later)).Nodup)
    (hb : (system capacity).run .init before = some s) (hp : Past before s i)
    (h : (system capacity).run s later = some s') : Past (before ++ later) s' i := by
  refine TransitionSystem.run_induction
    (I := fun later s => (drawn (before ++ later)).Nodup → Past (before ++ later) s i) (fun _ => ?_)
    (fun hr hi hs fresh => ?_) h fresh
  · rwa [List.append_nil]
  · rw [← List.append_assoc] at fresh ⊢
    cases (step_eq_some_iff.mp hs).2
    have earlier := (List.nodup_append.mp (drawn_append ▸ fresh)).1
    have inv := run_invariant earlier (TransitionSystem.run_append_eq_some_iff.mpr ⟨_, hb, hr⟩)
    exact (hi earlier).perform inv.sound fresh

theorem change_intents (fresh : (drawn ops).Nodup) (h : (system capacity).run .init ops = some s) :
    (∀ path, s.db.rowcount (fun row => row.inflight ∧ row.relativePath = path) ≤ 1) ∧
    s.db.activeCount ≤ capacity ∧
    (∀ {before later intent s₁}, ops = before ++ .takeFence intent :: later →
      (system capacity).run .init before = some s₁ → (s₁.db.takeFence intent).2 ≠ none →
      ∀ {op i s'}, op.presents = some i → i.messageId = intent.messageId →
        i.fenceToken ≤ intent.fenceToken → (system capacity).step s op = some s' →
        s'.db.row? intent.messageId = s.db.row? intent.messageId) ∧
    (∀ {before later s₁ row row'}, ops = before ++ later → (system capacity).run .init before = some s₁ →
      row ∈ s₁.db → row.settled → s.db.row? row.messageId = some row' → row' = row) ∧
    (∀ {s₁ op s₂ row'}, (system capacity).Occurs .init ops s₁ op s₂ → row' ∈ s₂.db →
      match s₁.db.row? row'.messageId with
      | none     => row'.state = .reserved
      | some row => row'.state = row.state ∨ row'.state ∈ row.state.successors) := by
  have inv := run_invariant fresh h
  refine ⟨fun path => OutboxDb.inflight_le_one, inv.capacity, ?_, ?_, ?_⟩
  · intro before later intent s₁ split hb granted op i s' hp hm hf hs
    have ⟨hi, hs⟩ := step_eq_some_iff.mp hs
    cases hs
    subst split
    have ⟨s₁', hb', hl⟩ := TransitionSystem.run_append_eq_some_iff.mp h
    cases hb.symm.trans hb'
    have ⟨s₂, taken, hl⟩ := Option.bind_eq_some_iff.mp (TransitionSystem.run_cons ▸ hl)
    have ⟨row, hr, hlt⟩ := OutboxDb.takeFence_granted granted
    have hb₂ := TransitionSystem.run_concat_eq_some_iff.mpr ⟨_, hb, taken⟩
    rw [List.append_cons] at inv fresh
    have earlier := (List.nodup_append.mp (drawn_append ▸ fresh)).1
    have past := @Invariant.past capacity _ _ row (run_invariant earlier hb₂) (by
      cases (step_eq_some_iff.mp taken).2
      exact (OutboxDb.row?_eq_some_iff.mp hr).1)
    have hrow := OutboxDb.messageId_of_row? hr
    rw [← hm]
    refine stale_unchanged inv (hi i hp) hp fun row' hr' => ?_
    have evolves := (run_past fresh hb₂ past hl).evolves row' (by rw [hrow, ← hm]; exact hr')
    exact (hf.trans_lt hlt).trans_le evolves.fenceToken_le
  · intro before later s₁ row row' split hb hr settled hr'
    subst split
    have ⟨s₁', hb', hl⟩ := TransitionSystem.run_append_eq_some_iff.mp h
    cases hb.symm.trans hb'
    have earlier := (List.nodup_append.mp (drawn_append ▸ fresh)).1
    have past := (run_invariant earlier hb).past hr
    exact ((run_past fresh hb past hl).evolves row' hr').of_settled settled
  · intro s₁ op s₂ row' occurs hr
    cases occurs with
    | @intro pre _ split hb step =>
      subst split
      have earlier := (List.nodup_append.mp (drawn_append ▸ fresh)).1
      have hc := @perform_change capacity _ op row'.messageId
        (run_invariant earlier hb).sound
      cases (step_eq_some_iff.mp step).2
      rw [OutboxDb.row?_of_mem hr] at hc
      cases hb : s₁.db.row? row'.messageId with
      | none     =>
        rw [hb] at hc
        cases hc with
        | reserved _ state => exact state
      | some row =>
        rw [hb] at hc
        cases hc with
        | same   => exact .inl rfl
        | turn t => exact t.state_next

namespace Sample

def reservation : Reservation where
  relativePath := "src/value.py"
  oldPath      := none
  changeType   := .modify
  beforeDigest := "before"
  afterDigest  := "after"
  stagingPath  := some "src/.value.py.bridle-stage-7"
  messageId    := "codechanged-1"
  now          := "2026-01-01T00:00:00Z"

def committing : ChangeIntent where
  messageId    := "codechanged-1"
  relativePath := "src/value.py"
  oldPath      := none
  changeType   := .modify
  beforeDigest := "before"
  afterDigest  := "after"
  stagingPath  := some "src/.value.py.bridle-stage-7"
  state        := .committing
  fenceToken   := 1
  supersededBy := none
  attempt      := 0
  nextRetryAt  := none
  createdAt    := "2026-01-01T00:00:00Z"

-- Recovery takes the fence of an intent whose writer goes on with its own token.
def operations : List Operation :=
  [.reserve reservation, .markCommitting { committing with state := .reserved }, .get "codechanged-1",
    .takeFence committing]

end Sample

theorem change_intents_recovered : ∃ s s', (system 2).run .init Sample.operations = some s ∧
    (system 2).step s (.markReady Sample.committing) = some s' ∧ s.db.activeCount ≤ 2 ∧
    s'.db.row? "codechanged-1" = s.db.row? "codechanged-1" := by
  have hs : ((system 2).run .init Sample.operations).isSome = true := by decide
  have ⟨s, hs⟩ := Option.isSome_iff_exists.mp hs
  have hs' : (((system 2).run .init Sample.operations).bind
    ((system 2).step · (.markReady Sample.committing))).isSome = true := by decide
  have ⟨s', hs'⟩ := Option.isSome_iff_exists.mp hs'
  rw [hs, Option.bind_some] at hs'
  have ⟨_, within, fence, _⟩ := change_intents (by decide) hs
  have hf : ((system 2).run .init (Sample.operations.take 3)).isSome = true := by decide
  have ⟨s₁, hf⟩ := Option.isSome_iff_exists.mp hf
  have granted : (((system 2).run .init (Sample.operations.take 3)).bind
    fun s => (s.db.takeFence Sample.committing).2) ≠ none := by decide
  rw [hf, Option.bind_some] at granted
  exact ⟨s, s', hs, hs', within, @fence _ [] _ _ rfl hf granted _ _ _ rfl rfl (Nat.le_refl _) hs'⟩

end Shared
end Outbox
