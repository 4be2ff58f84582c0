import BridleModel.Outbox.Theorems.Batch

namespace Outbox

section Recover

variable {sha256 : Bytes → String} {s s' : Project} {path : String}

-- Recovery changes nothing at a path that no intent works on.
theorem recover_frame (h : recover sha256 s = .ok s') (hu : ∀ row ∈ s.db, row.Untouched path) :
    s'.files path = s.files path := by
  refine (foldlM_recoverIntent_invariant
    (I := fun t => (∀ m, t.db.Isolated m path) ∧ t.files path = s.files path) ?_
    ⟨fun _ row hm _ => hu row hm, rfl⟩ h).right
  intro t t' a ⟨hi, hf⟩ h
  have hne : a.messageId ≠ a.messageId ++ "'" := by
    intro he
    have := congrArg (·.toList.length) he
    simp at this
  exact ⟨fun m => recoverIntent_isolated h (hi m), (recoverIntent_frame h (hi _) hne).trans hf⟩

end Recover

-- The paths of a change are as before the batch, and nothing is to be published for it.
structure AsBefore (s₀ : Project) (c : Item) (s : Project) : Prop where
  files : ∀ path ∈ c.paths, s.files path = s₀.files path
  row   : ∀ i, s.db.row? c.messageId = some i → i.state ≠ .ready

-- The change has happened, and its intent is to be published.
structure Final (c : Item) (s : Project) : Prop where
  target : s.files c.path = c.content
  old    : ∀ old, c.oldPath = some old → s.files old = none
  row    : ∃ i, s.db.row? c.messageId = some i ∧ i.state = .ready

def AllOrNothing (s₀ : Project) (items : List Item) (s : Project) : Prop :=
  (∀ c ∈ items, AsBefore s₀ c s) ∨ ∀ c ∈ items, Final c s

namespace Entry

variable (files₀ : Files) (restored : List String) (e : Entry)

-- The crash finds the new content at the path.
def New : Prop :=
  (e.stage.written ∧ e.item.path ∉ restored) ∨ files₀ e.item.path = e.item.content

-- The crash finds the staged content, and at the path what the intent has recorded as its content
-- before. For a rename that is the content of the old path.
def Replayable : Prop :=
  e.stage = .marked ∧ files₀ e.item.path = files₀ e.item.before

def OldGone : Prop :=
  ∀ old, e.item.oldPath = some old → (e.stage.removed ∧ old ∉ restored) ∨ files₀ old = none

def OldKept : Prop :=
  ∀ old, e.item.oldPath = some old → ¬(e.stage.removed ∧ old ∉ restored) ∨ files₀ old = none

-- The crash points from which recovery takes the change back
def Backward : Prop :=
  e.stage.begun = false ∨ e.stage ≠ .ready ∧ e.OldKept files₀ restored ∧ ¬e.New files₀ restored ∧
    ¬e.Replayable files₀

-- The crash points from which recovery completes the change
def Forward : Prop :=
  e.stage.begun ∧ e.OldGone files₀ restored ∧ (e.New files₀ restored ∨ e.Replayable files₀)

end Entry

-- Every change of the batch is to be taken back, or every change is to be completed.
def Uniform (files₀ : Files) (items : List Item) (p : BatchPosition) : Prop :=
  (∀ e ∈ p.entries items, e.Backward files₀ p.restored) ∨
    ∀ e ∈ p.entries items, e.Forward files₀ p.restored

-- The paths of the batch are recorded in the outbox as they are, and SHA-256 tells its contents apart.
structure Faithful (sha256 : Bytes → String) (files₀ : Files) (items : List Item) : Prop where
  stable   : ∀ c ∈ items, ∀ recorded, normalizePath c.path = .ok recorded → recorded = c.path
  distinct : ∀ c ∈ items, CollisionFree sha256 (files₀ c.path) c.content ∧
    CollisionFree sha256 (files₀ c.path) (files₀ c.before)

section Landing

variable {sha256 : Bytes → String} {s₀ s : Project} {items : List Item} {restored : List String}
  {p : Prepared} {stage : Stage}

theorem Placed.new_iff {files₀ files : Files} {e : Entry}
    (h : Placed files₀ restored e.item e.stage files) :
    files e.item.path = e.item.content ↔ e.New files₀ restored := by
  rw [h.target, Entry.New]
  by_cases hw : e.stage.written ∧ e.item.path ∉ restored
  case pos => simp [hw]
  case neg => rw [if_neg hw, or_iff_right hw]

theorem Placed.target_of_not_new {files₀ files : Files} {e : Entry}
    (h : Placed files₀ restored e.item e.stage files) (hn : ¬e.New files₀ restored) :
    files e.item.path = files₀ e.item.path :=
  h.target.trans <| if_neg fun hw => hn (.inl hw)

theorem Placed.old_gone_iff {files₀ files : Files} {e : Entry}
    (h : Placed files₀ restored e.item e.stage files) :
    (∀ old, e.item.oldPath = some old → files old = none) ↔ e.OldGone files₀ restored := by
  refine forall₂_congr fun old ho => ?_
  rw [h.old old ho]
  by_cases hr : e.stage.removed ∧ old ∉ restored
  case pos => simp [hr]
  case neg => rw [if_neg hr, or_iff_right hr]

theorem Placed.old_kept_iff {files₀ files : Files} {e : Entry}
    (h : Placed files₀ restored e.item e.stage files) :
    (∀ old, e.item.oldPath = some old → files old = files₀ old) ↔ e.OldKept files₀ restored := by
  refine forall₂_congr fun old ho => ?_
  rw [h.old old ho]
  by_cases hr : e.stage.removed ∧ old ∉ restored
  case pos => simp [hr, eq_comm]
  case neg => simp only [if_neg hr, true_iff]; exact .inl hr

-- What recovery makes of a change that is COMMITTING
theorem Entry.Holds.landing {i : ChangeIntent} {g : Stage} (hg : g.state = .committing)
    (h : (Entry.held p g).Holds sha256 s₀ restored s)
    (d : Describes sha256 p.item.messageId (p.item.locals p.staging) (s₀.files p.item.before) i)
    (hc : CollisionFree sha256 (s₀.files p.item.path) p.item.content)
    (hs : CollisionFree sha256 (s₀.files p.item.path) (s₀.files p.item.before)) :
    ((Entry.held p g).New s₀.files restored ∨ (Entry.held p g).Replayable s₀.files) ∧
        landing sha256 i (s.files p.item.path) (s.files p.staging) = (p.item.content, true) ∨
      (¬(Entry.held p g).New s₀.files restored ∧ ¬(Entry.held p g).Replayable s₀.files) ∧
        landing sha256 i (s.files p.item.path) (s.files p.staging) =
          (s₀.files p.item.path, false) := by
  cases h with
  | held placed _ _ staged =>
    have placed : Placed s₀.files restored (Entry.held p g).item (Entry.held p g).stage s.files := placed
    have hafter : i.afterDigest = fileDigest sha256 p.item.content := d.after
    by_cases hn : (Entry.held p g).New s₀.files restored
    case pos =>
      have ht : s.files p.item.path = p.item.content := placed.new_iff.mpr hn
      rw [ht]
      exact .inl ⟨.inl hn, landing_of_after d rfl⟩
    case neg =>
      have ht : s.files p.item.path = s₀.files p.item.path := placed.target_of_not_new hn
      have hne : fileDigest sha256 (s₀.files p.item.path) ≠ fileDigest sha256 p.item.content :=
        fun he => hn <| .inr <| hc.eq he
      rw [ht]
      by_cases hb : s₀.files p.item.path = s₀.files p.item.before
      case neg =>
        refine .inr ⟨⟨hn, fun hr => hb hr.right⟩, ?_⟩
        have hbefore : fileDigest sha256 (s₀.files p.item.path) ≠ i.beforeDigest :=
          d.before ▸ fun he => hb (hs.eq he)
        rw [Outbox.landing, hafter, if_neg hne, if_neg hbefore]
      case pos =>
        by_cases hm : g = .marked
        case pos =>
          subst hm
          have hst : s.files p.staging = p.item.content := staged
          rw [hst]
          exact .inl ⟨.inr ⟨rfl, hb⟩, landing_of_before d hne (congrArg _ hb)⟩
        case neg =>
          refine .inr ⟨⟨hn, fun hr => hm hr.left⟩, ?_⟩
          -- The staging file is gone, or it is the tombstone of the old content.
          have hst : s.files p.staging = if p.item.content = none then s₀.files p.item.path else none := by
            cases g <;> first | exact staged | contradiction
          have hbefore : fileDigest sha256 (s₀.files p.item.path) = i.beforeDigest :=
            d.before ▸ congrArg _ hb
          rw [Outbox.landing, hafter, if_neg hne, if_pos hbefore, hst]
          by_cases hr : p.item.content = none
          case pos =>
            have hold : s₀.files p.item.path ≠ none := fun ho => hne (by rw [ho, hr])
            simp [d.removes.mpr hr, hr, hold]
          case neg =>
            have hr' : i.changeType ≠ .remove := fun he => hr (d.removes.mp he)
            simp [hr', hr]

end Landing

namespace Batch

variable {sha256 : Bytes → String} {s₀ s s' : Project} {call : BatchCall} {items : List Item}
  {restored : List String} {entries : List Entry} {row : ChangeIntent} {c : Item} {e : Entry}
  {path : String} (f : Faithful sha256 s₀.files items)
  (h : Batch sha256 s₀ items restored entries s) (a : Accepted s₀ call items)

include f h

-- The row of a change of the batch works on the paths of the change.
theorem own_row (hm : row ∈ s.db) (hc : c ∈ items) (hid : row.messageId = c.messageId) :
    row.relativePath = c.path ∧ ∃ staging, c.staging = .ok staging ∧ row.staging = some staging := by
  have hr := hid ▸ OutboxDb.row?_of_mem hm
  have ⟨e, he, hitem⟩ := List.mem_map.mp (h.own ▸ hc)
  subst hitem
  cases h.holds e he with
  | pending _ hn | discarded _ hn => cases hn.symm.trans hr
  | held _ named owned _          =>
    cases owned.row.symm.trans hr
    exact ⟨f.stable _ hc _ owned.describes.recorded, _, named, owned.describes.staging⟩

include a

theorem isolated (hc : c ∈ items) (ht : c.Touches path) : s.db.Isolated c.messageId path := by
  intro row hm hne
  by_cases hown : row.messageId ∈ items.map (·.messageId)
  case neg => exact h.beside.untouched (fun row hm => a.quiet.others row hm c hc path ht) hm hown
  case pos =>
    have ⟨d, hd, hid⟩ := List.mem_map.mp hown
    have ⟨hpath, staging, hst, hst'⟩ := h.own_row f hm hd hid.symm
    have hdc (hd' : d.Touches path) : False := hne <| by rw [← hid, a.apart hd hc hd' ht]
    refine ⟨fun he => hdc <| .inr ?_, fun he => (hdc <| .inl ?_).elim⟩
    · rw [hst, Option.some.inj (hst'.symm.trans he)]
    · exact he ▸ hpath ▸ List.mem_cons_self

-- Nobody, the change itself included, is to recover the old path of a rename.
theorem untouched_old {old : String} (hc : c ∈ items) (ho : c.oldPath = some old) :
    ∀ row ∈ s.db, row.Untouched old := by
  intro row hm
  have hmem : old ∈ c.paths := by simp [Item.paths, ho]
  by_cases hid : row.messageId = c.messageId
  case neg => exact h.isolated f a hc (.inl hmem) row hm hid
  case pos =>
    obtain ⟨hpath, staging, hst, hst'⟩ := h.own_row f hm hc hid
    refine ⟨fun he => ?_, fun he => ?_⟩
    · refine (a.quiet.staging c hc c hc staging hst).left ?_
      rw [Option.some.inj (hst'.symm.trans he)]
      exact hmem
    · have hv := (validate_ok a.valid).left c hc
      exact absurd (ho.trans (congrArg _ (he.symm.trans hpath))) hv.renames

theorem lockable : s.db.Lockable := by
  intro row hm
  by_cases hown : row.messageId ∈ items.map (·.messageId)
  case neg =>
    have ⟨row₀, hm₀, _, hp, _⟩ := h.beside.descends hm hown ""
    exact hp ▸ a.quiet.lockable row₀ hm₀
  case pos =>
    have ⟨c, hc, hid⟩ := List.mem_map.mp hown
    have hr := hid ▸ OutboxDb.row?_of_mem hm
    have ⟨e, he, hitem⟩ := List.mem_map.mp (h.own ▸ hc)
    subst hitem
    cases h.holds e he with
    | pending _ hn | discarded _ hn => cases hn.symm.trans hr
    | held _ _ owned _              =>
      cases owned.row.symm.trans hr
      have hrec := owned.describes.recorded
      have hpath := f.stable _ hc _ hrec
      exact ⟨_, (congrArg normalizePath hpath).trans hrec⟩

end Batch

theorem Item.staging_ne {c : Item} {staging : String} (h : c.staging = .ok staging) :
    staging ≠ c.path :=
  stagingPath_ne (show stagingPath c.path (stagingSuffix c.changeType c.token) = _ from h)

section Crash

variable {sha256 : Bytes → String} {s₀ s s' : Project} {call : BatchCall} {items : List Item}
  {restored : List String} {entries : List Entry} {c : Item} {e : Entry}

theorem asBefore_iff : AsBefore s₀ c s ↔ s.files c.path = s₀.files c.path ∧
    (∀ old, c.oldPath = some old → s.files old = s₀.files old) ∧
    ∀ i, s.db.row? c.messageId = some i → i.state ≠ .ready := by
  refine ⟨fun h => ⟨h.files _ List.mem_cons_self, fun old ho => h.files old ?_, h.row⟩, fun h => ?_⟩
  · simp [Item.paths, ho]
  · obtain ⟨ht, ho, hr⟩ := h
    refine ⟨fun path hp => ?_, hr⟩
    cases List.mem_cons.mp hp with
    | inl hp => exact hp ▸ ht
    | inr hp => exact ho path (by simpa using hp)

-- What recovery makes of one change, to be shown below for every change of the batch
structure Decided (s₀ : Project) (restored : List String) (e : Entry) (s : Project) : Prop where
  before : AsBefore s₀ e.item s ↔ e.Backward s₀.files restored
  final  : Final e.item s ↔ e.Forward s₀.files restored

-- What is at the old path does not depend on the intent.
structure OldDecided (s₀ : Project) (restored : List String) (e : Entry) (s : Project) : Prop where
  kept : (∀ old, e.item.oldPath = some old → s.files old = s₀.files old) ↔
    e.OldKept s₀.files restored
  gone : (∀ old, e.item.oldPath = some old → s.files old = none) ↔ e.OldGone s₀.files restored

namespace OldDecided

theorem taken_back (o : OldDecided s₀ restored e s) (hb : e.stage.begun = false)
    (ht : s.files e.item.path = s₀.files e.item.path)
    (hr : s.db.row? e.item.messageId = none) : Decided s₀ restored e s where
  before := by
    refine iff_of_true (asBefore_iff.mpr ⟨ht, o.kept.mpr fun _ _ => .inl fun h => ?_, ?_⟩) (.inl hb)
    · cases hg : e.stage <;> simp_all [Stage.begun, Stage.removed]
    · simp [hr]
  final := by
    refine iff_of_false (fun h => ?_) fun h => ?_
    · obtain ⟨i, hi, _⟩ := h.row
      cases hr.symm.trans hi
    · have hbegun := h.left
      simp [hb] at hbegun

theorem completed {i : ChangeIntent} (o : OldDecided s₀ restored e s) (hb : e.stage.begun)
    (hg : e.stage = .ready ∨ e.New s₀.files restored ∨ e.Replayable s₀.files)
    (ht : s.files e.item.path = e.item.content ↔ e.New s₀.files restored ∨ e.Replayable s₀.files)
    (hr : s.db.row? e.item.messageId = some i) (hs : i.state = .ready) :
    Decided s₀ restored e s where
  before := by
    refine iff_of_false (fun h => h.row i hr hs) fun h => ?_
    cases h with
    | inl h => simp [hb] at h
    | inr h =>
      have ⟨hready, _, hn, hrep⟩ := h
      exact hg.elim hready fun h => h.elim hn hrep
  final := by
    refine ⟨fun h => ⟨hb, o.gone.mp h.old, ht.mp h.target⟩, fun h => ?_⟩
    exact ⟨ht.mpr h.right.right, o.gone.mpr h.right.left, i, hr, hs⟩

theorem stuck {i : ChangeIntent} (o : OldDecided s₀ restored e s) (hb : e.stage.begun)
    (hg : e.stage ≠ .ready) (hn : ¬e.New s₀.files restored) (hrep : ¬e.Replayable s₀.files)
    (ht : s.files e.item.path = s₀.files e.item.path)
    (hr : s.db.row? e.item.messageId = some i) (hs : i.state ≠ .ready) :
    Decided s₀ restored e s where
  before := by
    rw [asBefore_iff, o.kept]
    refine ⟨fun h => .inr ⟨hg, h.right.left, hn, hrep⟩, fun h => ?_⟩
    cases h with
    | inl h => simp [hb] at h
    | inr h => exact ⟨ht, h.right.left, fun j hj => Option.some.inj (hr.symm.trans hj) ▸ hs⟩
  final := by
    refine iff_of_false (fun h => ?_) fun h => h.right.right.elim hn hrep
    have ⟨j, hj, hs'⟩ := h.row
    cases hr.symm.trans hj
    exact hs hs'

end OldDecided

-- Recovery decides on each change by itself.
theorem Batch.recover (f : Faithful sha256 s₀.files items)
    (h : Batch sha256 s₀ items restored entries s) (a : Accepted s₀ call items)
    (hrec : recover sha256 s = .ok s') (he : e ∈ entries) : Decided s₀ restored e s' := by
  have hc : e.item ∈ items := h.own ▸ List.mem_map_of_mem he
  have hpath := h.isolated f a hc (.inl List.mem_cons_self)
  have placed : Placed s₀.files restored e.item e.stage s.files := by
    cases h.holds e he with
    | pending placed | held placed | discarded placed => exact placed
  have hold (old : String) (ho : e.item.oldPath = some old) : s'.files old = s.files old :=
    recover_frame hrec (h.untouched_old f a hc ho)
  have o : OldDecided s₀ restored e s' := {
    kept := (forall₂_congr fun old ho => by rw [hold old ho]).trans placed.old_kept_iff
    gone := (forall₂_congr fun old ho => by rw [hold old ho]).trans placed.old_gone_iff
  }
  have htarget (hb : e.stage.begun = false) : s.files e.item.path = s₀.files e.item.path := by
    refine placed.target.trans <| if_neg fun hw => ?_
    cases hg : e.stage <;> simp_all [Stage.begun, Stage.written]
  have absent (hb : e.stage.begun = false) (hr : s.db.row? e.item.messageId = none) :
      Decided s₀ restored e s' := by
    obtain ⟨hr', ht'⟩ := recover_absent hrec hr hpath
    exact o.taken_back hb (ht'.trans (htarget hb)) hr'
  cases e with
  | pending c   => cases h.holds _ he with | pending _ row => exact absent rfl row
  | discarded c => cases h.holds _ he with | discarded _ row => exact absent rfl row
  | held p g    =>
    cases h.holds _ he with
    | held _ named owned _ =>
      have hne : p.staging ≠ p.item.path := Item.staging_ne named
      have hc : p.item ∈ items := hc
      have hstable := f.stable p.item hc
      have hstaging := h.isolated f a hc (.inr named)
      have hdelivered : p.intent.state ≠ .delivered := owned.state ▸ by cases g <;> simp [Stage.state]
      have hrebase : p.intent.state ≠ .rebaseRequired := owned.state ▸ Stage.state_ne
      obtain ⟨hout, _⟩ := Describes.recover (l := p.item.locals p.staging) hrec hne hstable hpath hstaging
        owned.row owned.describes hdelivered hrebase
      have hout : (s'.files p.item.path, s'.db.row? p.item.messageId) =
        outcome sha256 p.intent (s.files p.item.path) (s.files p.staging) := hout
      cases hs : p.intent.state with
      | reserved   =>
        have hb : g.begun = false := by
          have := owned.state.symm.trans hs
          cases g <;> simp_all [Stage.state, Stage.begun]
        simp only [outcome, hs, Prod.mk.injEq] at hout
        exact o.taken_back hb (hout.left.trans (htarget hb)) hout.right
      | committing =>
        have hg : g.state = .committing := owned.state.symm.trans hs
        obtain ⟨hb, hready⟩ : g.begun ∧ g ≠ .ready := by cases g <;> simp_all [Stage.state, Stage.begun]
        obtain ⟨hcontent, hsource⟩ := f.distinct _ hc
        cases Entry.Holds.landing hg (h.holds _ he) owned.describes hcontent hsource with
        | inl hl =>
          obtain ⟨hdone, hl⟩ := hl
          simp only [outcome, hs, hl, Prod.mk.injEq] at hout
          exact o.completed hb (.inr hdone) (iff_of_true hout.left hdone) hout.right rfl
        | inr hl =>
          obtain ⟨⟨hn, hrep⟩, hl⟩ := hl
          simp only [outcome, hs, hl, Prod.mk.injEq] at hout
          exact o.stuck hb hready hn hrep hout.left hout.right (by simp [ChangeIntent.recovered])
      | ready      =>
        have hg : g = .ready := by
          have := owned.state.symm.trans hs
          cases g <;> simp_all [Stage.state]
        subst hg
        simp only [outcome, hs, Prod.mk.injEq] at hout
        have hrep : ¬(Entry.held p .ready).Replayable s₀.files := fun h => absurd h.left Stage.noConfusion
        refine o.completed rfl (.inl rfl) ?_ hout.right hs
        rw [or_iff_left hrep, ← placed.new_iff]
        exact Eq.congr_left hout.left
      | delivered      => exact absurd hs hdelivered
      | rebaseRequired => exact absurd hs hrebase

theorem allOrNothing_iff (f : Faithful sha256 s₀.files items) {p : BatchPosition}
    (h : Batch sha256 s₀ items p.restored (p.entries items) s) (a : Accepted s₀ call items)
    (hrec : recover sha256 s = .ok s') : AllOrNothing s₀ items s' ↔ Uniform s₀.files items p := by
  have each {A : Item → Prop} {B : Entry → Prop}
      (hab : ∀ e ∈ p.entries items, A e.item ↔ B e) :
      (∀ c ∈ items, A c) ↔ ∀ e ∈ p.entries items, B e := by
    refine Iff.trans ?_ (forall₂_congr hab)
    conv_lhs => rw [← h.own]
    exact List.forall_mem_map
  refine or_congr (each fun e he => ?_) (each fun e he => ?_)
  · exact (h.recover f a hrec he).before
  · exact (h.recover f a hrec he).final

-- Without renames, and without an exception, what counts is which changes have been marked COMMITTING.
theorem uniform_of_no_rename {files₀ : Files} {rest : List (String × Option Bytes)} {b : Body}
    (h : ∀ e ∈ b.entries, e.item.oldPath = none) :
    Uniform files₀ items (.working rest b) ↔
      (∀ e ∈ b.entries, e.stage.begun = false) ∨ ∀ e ∈ b.entries, e.stage.begun := by
  have hforward (e : Entry) (he : e ∈ b.entries) (hb : e.stage.begun) :
      e.New files₀ [] ∨ e.Replayable files₀ := by
    have hbefore : e.item.before = e.item.path := by simp [Item.before, h e he]
    cases hg : e.stage <;>
      simp_all [Stage.begun, Entry.New, Entry.Replayable, Stage.written]
  refine or_congr (forall₂_congr fun e he => ?_) (forall₂_congr fun e he => ?_)
  · refine ⟨fun hb => ?_, .inl⟩
    cases hb with
    | inl hb => exact hb
    | inr hb =>
      obtain ⟨_, _, hn, hr⟩ := hb
      exact Bool.eq_false_iff.mpr fun hb => (hforward e he hb).elim hn hr
  · refine ⟨And.left, fun hb => ⟨hb, fun old ho => ?_, hforward e he hb⟩⟩
    cases (h e he).symm.trans ho

end Crash

-- Two files are added to an empty project, and the crash comes when the first one has been marked
-- COMMITTING.
namespace BatchSample

def digest (content : Bytes) : String :=
  toString content

def adding (path text token messageId : String) : BatchChange :=
  { changeType := "add", path, oldPath := "", newText := some text, token, messageId, now := "now" }

def call : BatchCall where
  changes    := [adding "a" "1" "t" "m", adding "b" "2" "u" "n"]
  rollback _ := "r"

def item (path text token messageId : String) : Item :=
  {
    path, oldPath := none, changeType := .add, content := some (encode text), token, messageId
    now := "now"
  }

def items : List Item :=
  [item "a" "1" "t" "m", item "b" "2" "u" "n"]

def project : Project :=
  ⟨fun _ => none, .empty⟩

def events : List Event :=
  [.proceed, .proceed, .proceed, .proceed, .proceed]

def crash : Option (Project × BatchPosition) :=
  (call.system digest 1000).run (project, .start) events

-- The first change is completed, and the second one is taken back.
theorem crash_splits : (crash.bind fun t => (recover digest t.fst).toOption.map fun s =>
    (s.files "a", s.db.row? "n")) = some (some (encode "1"), none) := by
  decide +kernel

theorem accepted : Accepted project call items where
  valid := by decide +kernel
  quiet := {
    messages     := by decide
    rows _ _     := rfl
    absent _ _ _ := fun _ => rfl
    others _ h   := absurd h Table.not_mem_empty
    lockable _ h := absurd h Table.not_mem_empty
    staging c hc d hd st h := by
      have check : ∀ c ∈ items, ∀ d ∈ items, ∀ st ∈ c.staging.toOption,
          st ∉ d.paths ∧ (d.staging = .ok st → c = d) := by decide +kernel
      exact check c hc d hd st (by simp [h, Except.toOption])
    temporary c hc d hd path hp temporary h := by
      have check : ∀ c ∈ items, ∀ d ∈ items, ∀ path ∈ c.paths,
          ∀ temporary ∈ (call.temporary path).toOption,
            ¬(temporary ∈ d.paths ∨ d.staging = .ok temporary) := by decide
      exact check c hc d hd path hp temporary (by simp [h, Except.toOption])
  }

theorem faithful : Faithful digest project.files items where
  distinct _ _             := ⟨.none_left, .none_left⟩
  stable c hc recorded h := by
    have check : ∀ c ∈ items, normalizePath c.path = .ok c.path := by decide
    exact Except.ok.inj <| h.symm.trans <| check c hc

end BatchSample

end Outbox
