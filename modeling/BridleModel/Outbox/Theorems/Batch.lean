import Mathlib.Data.List.Nodup
import BridleModel.Outbox.Batch
import BridleModel.Outbox.Theorems.Commit

namespace Outbox

-- How far `commit_many` has come with one change
inductive Stage
  | pending
  | reserved
  | writing
  | staged
  | marked
  | replaced
  | unlinked
  | ready
  | discarded
deriving DecidableEq

namespace Stage

-- The intent has been marked COMMITTING.
def begun : Stage → Bool
  | marked | replaced | unlinked | ready                  => true
  | pending | reserved | writing | staged | discarded => false

-- The path holds its new content.
def written : Stage → Bool
  | replaced | unlinked | ready => true
  | _                           => false

-- The old path of a rename is gone.
def removed : Stage → Bool
  | unlinked | ready => true
  | _                => false

def state : Stage → OutboxState
  | marked | replaced | unlinked => .committing
  | ready                        => .ready
  | _                            => .reserved

theorem state_ne {stage : Stage} : stage.state ≠ .rebaseRequired := by
  cases stage <;> simp [state]

end Stage

inductive Entry
  | pending (c : Item)
  | held (p : Prepared) (stage : Stage)
  | discarded (c : Item)

namespace Entry

def item : Entry → Item
  | pending c | discarded c => c
  | held p _                => p.item

def stage : Entry → Stage
  | pending _    => .pending
  | held _ stage => stage
  | discarded _  => .discarded

end Entry

-- The changes of a batch in their order
def Body.entries : Body → List Entry
  | reserving done todo   => done.map (.held · .marked) ++ todo.map .pending
  | reserved done p todo  => done.map (.held · .marked) ++ .held p .reserved :: todo.map .pending
  | writing done p todo   => done.map (.held · .marked) ++ .held p .writing :: todo.map .pending
  | staged done p todo    => done.map (.held · .marked) ++ .held p .staged :: todo.map .pending
  | replacing done todo   => done.map (.held · .unlinked) ++ todo.map (.held · .marked)
  | unlinking done p todo =>
    done.map (.held · .unlinked) ++ .held p .replaced :: todo.map (.held · .marked)
  | marking done todo     => done.map (.held · .ready) ++ todo.map (.held · .unlinked)
  | cleaning done p todo  =>
    done.map (.held · .ready) ++ .held p .ready :: todo.map (.held · .unlinked)

namespace BatchPosition

def entries (items : List Item) : BatchPosition → List Entry
  | start                                                                => items.map .pending
  | working _ b | restoring b _ _ | rewriting b _ _ _ _ _ | discarding b _ => b.entries
  | finished (.ready done)                                                => done.map (.held · .ready)
  | sweeping _ | finished _                                               => items.map .discarded

-- The paths that the handler has restored
def restored : BatchPosition → List String
  | restoring _ restored _ | rewriting _ restored _ _ _ _ | discarding _ restored => restored
  | _                                                                             => []

end BatchPosition

theorem Body.mem_prepared {b : Body} {p : Prepared} :
    p ∈ b.prepared ↔ ∃ stage, Entry.held p stage ∈ b.entries := by
  cases b <;> simp [prepared, entries, exists_or, eq_comm]

section Validate

-- What validation establishes of a change
structure Item.Valid (c : Item) : Prop where
  removes : c.changeType = .remove ↔ c.content = none
  renames : c.oldPath ≠ some c.path

variable {raw : BatchChange} {changes : List BatchChange} {affected : List String} {c : Item}
  {items : List Item}

theorem BatchChange.item_ok (h : raw.item affected = .ok c) :
    c.Valid ∧ ∀ path ∈ c.paths, path ∉ affected := by
  unfold item at h
  split at h
  case h_1 => cases h
  case h_2 changeType _ =>
    have ⟨path, _, h⟩ := Except.bind_eq_ok_iff.mp h
    have ⟨oldPath, _, h⟩ := Except.bind_eq_ok_iff.mp h
    split at h
    case isTrue => cases h
    case isFalse hrename =>
      dsimp only at h
      split at h
      case h_1 => cases h
      case h_2 content hcontent =>
        split at h
        case isTrue => cases h
        case isFalse hfresh =>
          cases h
          refine ⟨⟨CommitCall.removes_iff hcontent, hrename⟩, fun path hp ha => hfresh ?_⟩
          exact List.any_eq_true.mpr ⟨path, hp, decide_eq_true ha⟩

theorem Item.Valid.nodup_paths (v : c.Valid) : c.paths.Nodup := by
  cases ho : c.oldPath with
  | none     => simp [paths, ho]
  | some old =>
    have : c.path ≠ old := fun he => v.renames (he ▸ ho)
    simpa [paths, ho] using this

theorem validate_ok (h : validate affected changes = .ok items) :
    (∀ c ∈ items, c.Valid) ∧ (items.flatMap (·.paths)).Nodup ∧
      ∀ path ∈ items.flatMap (·.paths), path ∉ affected := by
  induction changes generalizing affected items
  case nil => cases h; simp
  case cons raw changes hi =>
    have ⟨c, hc, h⟩ := Except.bind_eq_ok_iff.mp h
    have ⟨rest, hr, h⟩ := Except.bind_eq_ok_iff.mp h
    cases h
    have ⟨hv, hfresh⟩ := BatchChange.item_ok hc
    have ⟨hvalid, hnodup, hrest⟩ := hi hr
    refine ⟨List.forall_mem_cons.mpr ⟨hv, hvalid⟩, ?_, ?_⟩
    · rw [List.flatMap_cons, List.nodup_append']
      exact ⟨hv.nodup_paths, hnodup, fun path hp hp' => hrest path hp' (List.mem_append_right _ hp)⟩
    · intro path hp
      rw [List.flatMap_cons, List.mem_append] at hp
      cases hp with
      | inl hp => exact hfresh path hp
      | inr hp => exact fun ha => hrest path hp (List.mem_append_left _ ha)

end Validate

-- The paths that the change and its recovery work on
def Item.Touches (c : Item) (path : String) : Prop :=
  path ∈ c.paths ∨ c.staging = .ok path

-- Nobody else works on the files of the batch, and the names that the call draws are fresh.
structure BatchQuiet (s : Project) (call : BatchCall) (items : List Item) : Prop where
  messages  : (items.map (·.messageId)).Nodup
  rows      : ∀ c ∈ items, s.db.row? c.messageId = none
  absent    : ∀ c ∈ items, ∀ staging, c.staging = .ok staging → s.files staging = none
  staging   : ∀ c ∈ items, ∀ d ∈ items, ∀ staging, c.staging = .ok staging →
    staging ∉ d.paths ∧ (d.staging = .ok staging → c = d)
  temporary : ∀ c ∈ items, ∀ d ∈ items, ∀ path ∈ c.paths, ∀ temporary,
    call.temporary path = .ok temporary → ¬d.Touches temporary
  others    : ∀ row ∈ s.db, ∀ c ∈ items, ∀ path, c.Touches path → row.Untouched path
  lockable  : s.db.Lockable

-- A batch that has passed validation
structure Accepted (s : Project) (call : BatchCall) (items : List Item) : Prop where
  valid : validate [] call.changes = .ok items
  quiet : BatchQuiet s call items

namespace Accepted

variable {s : Project} {call : BatchCall} {items : List Item} {c d : Item} {path : String}

theorem apart (a : Accepted s call items) (hc : c ∈ items) (hd : d ∈ items) (h : c.Touches path)
    (h' : d.Touches path) : c = d := by
  cases h with
  | inr h =>
    have ⟨hp, he⟩ := a.quiet.staging c hc d hd path h
    exact h'.elim (absurd · hp) he
  | inl h =>
    cases h' with
    | inr h' => exact absurd h (a.quiet.staging d hd c hc path h').left
    | inl h' =>
      have ⟨_, hdisjoint⟩ := List.nodup_flatMap.mp (validate_ok a.valid).right.left
      by_contra hne
      have : Std.Symm (Function.onFun List.Disjoint Item.paths) := ⟨fun _ _ h _ hx hx' => h hx' hx⟩
      exact hdisjoint.forall hc hd hne h h'

theorem nodup (a : Accepted s call items) : items.Nodup :=
  a.quiet.messages.of_map _

theorem message_inj (a : Accepted s call items) (hc : c ∈ items) (hd : d ∈ items)
    (h : c.messageId = d.messageId) : c = d :=
  List.inj_on_of_nodup_map a.quiet.messages hc hd h

end Accepted

-- What is at the paths of a change, of which the handler has restored some
structure Placed (files₀ : Files) (restored : List String) (c : Item) (stage : Stage)
    (files : Files) : Prop where
  target : files c.path = if stage.written ∧ c.path ∉ restored then c.content else files₀ c.path
  old    : ∀ old, c.oldPath = some old →
    files old = if stage.removed ∧ old ∉ restored then none else files₀ old

-- What is at the path of the staging file: in the end the old content, if that is to go
def Prepared.Staged (files₀ : Files) (p : Prepared) (files : Files) : Stage → Prop
  | .reserved              => files p.staging = none
  | .staged | .marked      => files p.staging = p.item.content
  | .replaced | .unlinked  =>
    files p.staging = if p.item.content = none then files₀ p.item.path else none
  | _                      => True

def Item.locals (c : Item) (staging : String) : Locals :=
  ⟨c.path, staging, c.content⟩

inductive Entry.Holds (sha256 : Bytes → String) (s₀ : Project) (restored : List String)
    (s : Project) : Entry → Prop
  | pending (placed : Placed s₀.files restored c .pending s.files)
      (row : s.db.row? c.messageId = none)
      (staging : ∀ staging, c.staging = .ok staging → s.files staging = none) :
      Holds sha256 s₀ restored s (.pending c)
  | held (placed : Placed s₀.files restored p.item g s.files)
      (named : p.item.staging = .ok p.staging)
      (owned : Owned sha256 p.item.messageId (p.item.locals p.staging) (s₀.files p.item.before)
        g.state p.intent s)
      (staged : p.Staged s₀.files s.files g) : Holds sha256 s₀ restored s (.held p g)
  | discarded (placed : Placed s₀.files restored c .discarded s.files)
      (row : s.db.row? c.messageId = none) : Holds sha256 s₀ restored s (.discarded c)

theorem Prepared.move_files {p : Prepared} {files files' : Files} (h : p.move files = some files')
    (hne : p.item.path ≠ p.staging) (hs : files p.staging = p.item.content) :
    files' p.item.path = p.item.content ∧
      files' p.staging = (if p.item.content = none then files p.item.path else none) ∧
      ∀ path, path ≠ p.item.path → path ≠ p.staging → files' path = files path := by
  unfold move at h
  split at h
  case isTrue hc =>
    rw [hc] at hs ⊢
    split at h
    case isTrue ht =>
      cases h
      simp [ht, hs]
    case isFalse =>
      have ⟨old, ho, h⟩ := Option.map_eq_some_iff.mp h
      subst h
      refine ⟨(Files.write_ne hne).trans Files.unlink_self, by simp [ho], fun path hp hs => ?_⟩
      rw [Files.write_ne hs, Files.unlink_ne hp]
  case isFalse hc =>
    have ⟨new, hn, h⟩ := Option.map_eq_some_iff.mp h
    subst h
    refine ⟨Files.write_self.trans (hn.symm.trans hs), ?_, fun path hp hs => ?_⟩
    · simp [hc, Files.write_ne hne.symm]
    · rw [Files.write_ne hp, Files.unlink_ne hs]

section Holds

variable {sha256 : Bytes → String} {files₀ files files' : Files} {restored : List String} {c : Item}
  {stage stage' : Stage} {p : Prepared} {s₀ s s' : Project} {e : Entry} {path : String}

theorem Placed.congr (h : Placed files₀ restored c stage files)
    (hf : ∀ path ∈ c.paths, files' path = files path) : Placed files₀ restored c stage files' where
  target     := (hf _ List.mem_cons_self).trans h.target
  old old ho := (hf _ (by simp [Item.paths, ho])).trans (h.old old ho)

theorem Placed.restage (h : Placed files₀ restored c stage files)
    (hw : stage'.written = stage.written) (hr : stage'.removed = stage.removed) :
    Placed files₀ restored c stage' files where
  target := hw ▸ h.target
  old    := hr ▸ h.old

theorem Prepared.Staged.congr (h : p.Staged files₀ files stage)
    (hf : files' p.staging = files p.staging) : p.Staged files₀ files' stage := by
  cases stage <;> first | exact trivial | exact hf.trans h

theorem Entry.Holds.congr (h : e.Holds sha256 s₀ restored s)
    (hr : s'.db.row? e.item.messageId = s.db.row? e.item.messageId)
    (hf : ∀ path, e.item.Touches path → s'.files path = s.files path) :
    e.Holds sha256 s₀ restored s' := by
  cases h with
  | pending placed row staging =>
    refine .pending (placed.congr fun path hp => hf path (.inl hp)) (hr.trans row) ?_
    exact fun st hst => (hf st (.inr hst)).trans (staging st hst)
  | held placed named owned staged =>
    refine .held (placed.congr fun path hp => hf path (.inl hp)) named ?_ ?_
    · exact ⟨hr.trans owned.row, owned.describes, owned.state⟩
    · exact staged.congr <| hf _ (.inr named)
  | discarded placed row =>
    exact .discarded (placed.congr fun path hp => hf path (.inl hp)) (hr.trans row)

-- No intent of the batch waits for a rebase, so that none is superseded.
theorem Entry.Holds.state_ne {row : ChangeIntent} (h : e.Holds sha256 s₀ restored s)
    (hr : s.db.row? e.item.messageId = some row) : row.state ≠ .rebaseRequired := by
  cases h with
  | pending _ hn _ | discarded _ hn => cases hn.symm.trans hr
  | held _ _ owned _                =>
    cases owned.row.symm.trans hr
    exact owned.state ▸ Stage.state_ne

end Holds

-- The invariant of a batch
structure Batch (sha256 : Bytes → String) (s₀ : Project) (items : List Item)
    (restored : List String) (entries : List Entry) (s : Project) : Prop where
  own    : entries.map (·.item) = items
  holds  : ∀ e ∈ entries, e.Holds sha256 s₀ restored s
  beside : s₀.db.Beside {m | m ∈ items.map (·.messageId)} s.db

namespace Batch

variable {sha256 : Bytes → String} {s₀ s s' : Project} {call : BatchCall} {items : List Item}
  {restored : List String} {pre post : List Entry} {e e' : Entry}

theorem mem (h : Batch sha256 s₀ items restored (pre ++ e :: post) s) : e.item ∈ items :=
  h.own ▸ List.mem_map_of_mem (by simp)

-- An operation on one change leaves the others alone.
theorem update (a : Accepted s₀ call items)
    (h : Batch sha256 s₀ items restored (pre ++ e :: post) s) (he : e'.item = e.item)
    (hh : e'.Holds sha256 s₀ restored s')
    (hb : s₀.db.Beside {m | m ∈ items.map (·.messageId)} s'.db)
    (hr : ∀ d ∈ pre ++ e :: post, d.item.messageId ≠ e.item.messageId →
      s'.db.row? d.item.messageId = s.db.row? d.item.messageId)
    (hf : ∀ path, ¬e.item.Touches path → s'.files path = s.files path) :
    Batch sha256 s₀ items restored (pre ++ e' :: post) s' where
  own    := by simpa [he] using h.own
  beside := hb
  holds  := by
    have hnodup := a.nodup
    rw [← h.own, List.map_append, List.map_cons, List.nodup_middle, List.nodup_cons] at hnodup
    have other (d : Entry) (hd : d ∈ pre ∨ d ∈ post) : d.Holds sha256 s₀ restored s' := by
      have hmem : d ∈ pre ++ e :: post := by
        cases hd with
        | inl hd => exact List.mem_append_left _ hd
        | inr hd => exact List.mem_append_right _ (List.mem_cons_of_mem _ hd)
      have hitem : d.item ∈ items := h.own ▸ List.mem_map_of_mem hmem
      have hne : d.item ≠ e.item := by
        refine fun he => hnodup.left ?_
        rw [← he, ← List.map_append]
        exact List.mem_map_of_mem (List.mem_append.mpr hd)
      refine (h.holds d hmem).congr ?_ fun path ht => hf path fun ht' => ?_
      · exact hr d hmem fun hm => hne (a.message_inj hitem h.mem hm)
      · exact hne (a.apart hitem h.mem ht ht')
    intro d hd
    cases List.mem_append.mp hd with
    | inl hd => exact other d (.inl hd)
    | inr hd =>
      cases List.mem_cons.mp hd with
      | inl hd => exact hd ▸ hh
      | inr hd => exact other d (.inr hd)

section Operations

variable {p : Prepared} {c : Item} {stage stage' : Stage} {files : Files} {capacity : Nat}
  {db : OutboxDb} (a : Accepted s₀ call items)

include a

theorem staging_touches (h : Batch sha256 s₀ items restored (pre ++ .held p stage :: post) s) :
    p.item.Touches p.staging ∧ p.staging ∉ p.item.paths := by
  cases h.holds (.held p stage) (by simp) with
  | held _ named _ _ => exact ⟨.inr named, (a.quiet.staging _ h.mem _ h.mem _ named).left⟩

theorem reserve (h : Batch sha256 s₀ items restored (pre ++ .pending c :: post) s)
    (hr : c.reserve sha256 capacity s = some (db, p)) :
    Batch sha256 s₀ items restored (pre ++ .held p .reserved :: post) { s with db } := by
  cases h.holds (.pending c) (by simp) with
  | pending placed row absent =>
    have hc : c ∈ items := h.mem
    have hown : c.messageId ∈ items.map (·.messageId) := List.mem_map_of_mem hc
    have hsource : s.files c.before = s₀.files c.before := by
      cases ho : c.oldPath with
      | none     => simpa [Item.before, ho, Stage.written] using placed.target
      | some old => simpa [Item.before, ho, Stage.removed] using placed.old old ho
    unfold Item.reserve at hr
    split at hr
    case h_1 => cases hr
    case h_2 staging hst =>
      split at hr
      case h_2 => cases hr
      case h_1 hres =>
        cases hr
        obtain ⟨recorded, _, hp, _, hcases⟩ := OutboxDb.reserve_cases hres
        cases hcases with
        | inl hd => obtain ⟨_, _, hn⟩ := hd; cases hn
        | inr hi =>
          obtain ⟨_, he, hres, hi⟩ := hi
          cases he
          subst hi
          refine h.update a rfl ?_ (h.beside.reserves hres hown) ?_ fun _ _ => rfl
          · refine .held (placed.restage rfl rfl) hst ⟨hres.found, ?_, rfl⟩ (absent _ hst)
            exact {
              messageId := rfl
              recorded  := hp
              staging   := by simp [ChangeIntent.staging, stagingPath_ne_empty hst, Item.locals]
              before    := congrArg (fileDigest sha256) hsource
              after     := rfl
              removes   := (validate_ok a.valid).left c hc |>.removes
              current   := rfl
            }
          · intro d hd hne
            cases hres.others _ hne with
            | inl he => exact he
            | inr he =>
              obtain ⟨row, hr, hs, _⟩ := he
              exact absurd hs <| (h.holds d hd).state_ne hr

theorem transition (h : Batch sha256 s₀ items restored (pre ++ .held p stage :: post) s)
    (stage' : Stage) (hb : stage'.state.blocking = true → stage.state.blocking = true)
    (hw : stage'.written = stage.written) (hr : stage'.removed = stage.removed)
    (hs : p.Staged s₀.files s.files stage → p.Staged s₀.files s.files stage') :
    ∃ db intent, s.db.transition p.intent stage'.state stage.state hb = (db, some intent) ∧
      Batch sha256 s₀ items restored (pre ++ .held { p with intent } stage' :: post) { s with db } := by
  cases h.holds (.held p stage) (by simp) with
  | held placed named owned staged =>
    have ⟨db, ht, ha, o⟩ := owned.transition stage'.state hb
    refine ⟨db, _, ht, h.update a rfl (.held (placed.restage hw hr) named o (hs staged)) ?_ ?_ ?_⟩
    · refine h.beside.advances ha ?_
      rw [owned.describes.messageId]
      exact List.mem_map_of_mem h.mem
    · intro d _ hne
      exact ha.others _ (owned.describes.messageId ▸ hne)
    · exact fun _ _ => rfl

-- An operation on the files of the change
theorem onFiles (h : Batch sha256 s₀ items restored (pre ++ .held p stage :: post) s)
    (hs : stage'.state = stage.state) (hp : Placed s₀.files restored p.item stage' files)
    (hst : p.Staged s₀.files files stage')
    (hf : ∀ path, ¬p.item.Touches path → files path = s.files path) :
    Batch sha256 s₀ items restored (pre ++ .held p stage' :: post) { s with files } := by
  cases h.holds (.held p stage) (by simp) with
  | held placed named owned staged =>
    refine h.update a rfl (.held hp named ?_ hst) h.beside (fun _ _ _ => rfl) hf
    exact hs ▸ owned.of_files

-- An operation on the staging file
theorem onStaging (h : Batch sha256 s₀ items restored (pre ++ .held p stage :: post) s)
    (hs : stage'.state = stage.state) (hw : stage'.written = stage.written)
    (hr : stage'.removed = stage.removed) (hst : p.Staged s₀.files files stage')
    (hf : ∀ path, path ≠ p.staging → files path = s.files path) :
    Batch sha256 s₀ items restored (pre ++ .held p stage' :: post) { s with files } := by
  have ⟨ht, hn⟩ := h.staging_touches a
  cases h.holds (.held p stage) (by simp) with
  | held placed _ _ _ =>
    refine h.onFiles a hs ((placed.restage hw hr).congr fun path hp => hf path ?_) hst ?_
    · exact fun he => hn (he ▸ hp)
    · exact fun path hp => hf path fun he => hp (he ▸ ht)

theorem move (h : Batch sha256 s₀ items [] (pre ++ .held p .marked :: post) s)
    (hm : p.move s.files = some files) :
    Batch sha256 s₀ items []
      (pre ++ .held p (if p.item.oldPath = none then .unlinked else .replaced) :: post)
      { s with files } := by
  have ⟨ht, hn⟩ := h.staging_touches a
  have hv := (validate_ok a.valid).left _ h.mem
  have hne : p.item.path ≠ p.staging := fun he => hn (he ▸ List.mem_cons_self)
  cases h.holds (.held p .marked) (by simp) with
  | held placed _ _ staged =>
    have htarget : s.files p.item.path = s₀.files p.item.path := by
      simpa [Stage.written] using placed.target
    have ⟨hnew, hst, hframe⟩ := Prepared.move_files hm hne staged
    have hframe' (path : String) (hp : ¬p.item.Touches path) : files path = s.files path := by
      refine hframe path (fun he => hp ?_) fun he => hp (he ▸ ht)
      exact .inl (he ▸ List.mem_cons_self)
    rw [htarget] at hst
    split
    case isTrue ho =>
      refine h.onFiles a rfl ⟨by simpa [Stage.written] using hnew, fun old ho' => ?_⟩ hst hframe'
      cases ho.symm.trans ho'
    case isFalse =>
      refine h.onFiles a rfl ⟨by simpa [Stage.written] using hnew, fun old ho => ?_⟩ hst hframe'
      have hmem : old ∈ p.item.paths := by simp [Item.paths, ho]
      refine (hframe old ?_ ?_).trans (placed.old old ho)
      · exact fun he => hv.renames (he ▸ ho)
      · exact fun he => hn (he ▸ hmem)

theorem unlink {old : String}
    (h : Batch sha256 s₀ items [] (pre ++ .held p .replaced :: post) s)
    (ho : p.item.oldPath = some old) :
    Batch sha256 s₀ items [] (pre ++ .held p .unlinked :: post)
      { s with files := s.files.unlink old } := by
  have ⟨_, hn⟩ := h.staging_touches a
  have hv := (validate_ok a.valid).left _ h.mem
  have hmem : old ∈ p.item.paths := by simp [Item.paths, ho]
  have hpath : p.item.path ≠ old := fun he => hv.renames (ho.trans (congrArg _ he.symm))
  have hstaging : p.staging ≠ old := fun he => hn (he ▸ hmem)
  cases h.holds (.held p .replaced) (by simp) with
  | held placed _ _ staged =>
    refine h.onFiles a rfl ⟨?_, fun old' ho' => ?_⟩ ?_ fun path hp => Files.unlink_ne fun he => ?_
    · exact (Files.unlink_ne hpath).trans placed.target
    · cases ho.symm.trans ho'
      simp [Stage.removed]
    · exact (Files.unlink_ne hstaging).trans staged
    · exact hp <| .inl (he ▸ hmem)

end Operations
end Batch

section Body

variable {sha256 : Bytes → String} {s₀ s s' : Project} {call : BatchCall} {items : List Item}
  {capacity : Nat} {b : Body} {next : Option Body} {e : Event}

-- A position of the loops keeps the invariant, also where it ends in an exception.
theorem Body.step_batch (a : Accepted s₀ call items) (h : Batch sha256 s₀ items [] b.entries s)
    (hs : b.step sha256 capacity s e = some (s', next)) :
    Batch sha256 s₀ items [] (next.getD b).entries s' := by
  unfold step at hs
  split at hs
  case h_1 => cases hs; simpa [entries] using h
  case h_2 done c todo =>
    split at hs
    case h_1         => cases hs; exact h
    case h_2 db p hr => cases hs; exact h.reserve a hr
  case h_3 done p todo =>
    have hst : s.files p.staging = none := by
      cases h.holds (.held p .reserved) (by simp [entries]) with | held _ _ _ staged => exact staged
    split at hs
    case h_1 hc => cases hs; exact h.onStaging a rfl rfl rfl (hst.trans hc.symm) fun _ _ => rfl
    case h_2 =>
      rw [if_neg (not_not.mpr hst)] at hs
      cases hs
      exact h.onStaging a rfl rfl rfl trivial fun _ => Files.write_ne
  case h_4 done p todo n =>
    have ⟨content, _, hs⟩ := Option.map_eq_some_iff.mp hs
    cases hs
    exact h.onStaging a rfl rfl rfl trivial fun _ => Files.write_ne
  case h_5 done p todo =>
    have ⟨content, hc, hs⟩ := Option.map_eq_some_iff.mp hs
    cases hs
    exact h.onStaging a rfl rfl rfl (Files.write_self.trans hc.symm) fun _ => Files.write_ne
  case h_6 done p todo =>
    have ⟨db, intent, ht, h⟩ := h.transition a .marked (by decide) rfl rfl id
    have ht : s.db.markCommitting p.intent = (db, some intent) := ht
    rw [ht] at hs
    cases hs
    simpa [entries] using h
  case h_7 => cases hs; simpa [entries] using h
  case h_8 done p todo =>
    split at hs
    case h_1 => cases hs; exact h
    case h_2 files hm =>
      cases hs
      have h := h.move a hm
      split at h
      case isTrue ho  => simpa [entries, ho] using h
      case isFalse ho => simpa [entries, ho] using h
  case h_9 done p todo =>
    have ⟨old, ho, hs⟩ := Option.map_eq_some_iff.mp hs
    cases hs
    have h := h.unlink a ho
    simpa [entries] using h
  case h_10 done p todo =>
    have ⟨db, intent, ht, h⟩ := h.transition a .ready (by decide) rfl rfl fun _ => trivial
    have ht : s.db.markReady p.intent = (db, some intent) := ht
    rw [ht] at hs
    cases hs
    simpa [entries] using h
  case h_11 done p todo =>
    cases hs
    have hst : p.intent.staging = some p.staging := by
      cases h.holds (.held p .ready) (by simp [entries]) with
      | held _ _ owned _ => exact owned.describes.staging
    have hframe (path : String) (hp : path ≠ p.staging) :
        cleanupStaging s.files p.intent path = s.files path :=
      cleanupStaging_ne fun he => hp (Option.some.inj (he.symm.trans hst))
    have h : Batch sha256 s₀ items [] (_ ++ .held p .ready :: _) _ :=
      h.onStaging a rfl rfl rfl trivial hframe
    simpa [entries] using h
  case h_12 => cases hs; exact h
  case h_13 => cases hs

end Body

theorem mem_affectedPaths {items : List Item} {path : String} :
    path ∈ affectedPaths items ↔ ∃ c ∈ items, path ∈ c.paths := by
  simp [affectedPaths, List.mem_insertionSort, List.mem_flatMap]

-- The snapshots that the handler has yet to restore
structure Remaining (files₀ : Files) (items : List Item) (restored : List String)
    (rest : List (String × Option Bytes)) : Prop where
  covers    : ∀ c ∈ items, ∀ path ∈ c.paths, path ∈ restored ∨ path ∈ rest.map Prod.fst
  snapshots : ∀ r ∈ rest, r.snd = files₀ r.fst ∧ ∃ c ∈ items, r.fst ∈ c.paths

theorem Remaining.next {files₀ : Files} {items : List Item} {restored : List String}
    {r : String × Option Bytes} {rest : List (String × Option Bytes)}
    (h : Remaining files₀ items restored (r :: rest)) :
    Remaining files₀ items (restored ++ [r.fst]) rest where
  snapshots r hr := h.snapshots r (List.mem_cons_of_mem _ hr)
  covers c hc path hp := by
    cases h.covers c hc path hp with
    | inl h => exact .inl <| List.mem_append_left _ h
    | inr h =>
      cases List.mem_cons.mp h with
      | inl h => exact .inl <| by simp [h]
      | inr h => exact .inr h

-- What the handler relies on
def BatchPosition.Rest (files₀ : Files) (items : List Item) : BatchPosition → Prop
  | .working rest _                                   => Remaining files₀ items [] rest
  | .restoring _ restored rest                        => Remaining files₀ items restored rest
  | .rewriting _ restored temporary path content rest =>
    Remaining files₀ items restored ((path, some content) :: rest) ∧
      ∀ c ∈ items, ¬c.Touches temporary
  | .discarding _ restored                            => Remaining files₀ items restored []
  | .sweeping staging                                 =>
    ∀ st ∈ staging, ∀ c ∈ items, st ∉ c.paths
  | .start | .finished _                              => True

section Handler

variable {sha256 : Bytes → String} {files₀ files files' : Files} {s₀ s s' : Project}
  {call : BatchCall} {items : List Item} {restored : List String} {entries : List Entry}
  {c : Item} {stage : Stage} {path : String}

theorem Placed.restore (h : Placed files₀ restored c stage files)
    (hp : files' path = files₀ path) (hf : ∀ x ∈ c.paths, x ≠ path → files' x = files x) :
    Placed files₀ (restored ++ [path]) c stage files' where
  target := by
    by_cases he : c.path = path
    case pos => simp [he, hp]
    case neg => rw [hf _ List.mem_cons_self he, h.target]; simp [he]
  old old ho := by
    by_cases he : old = path
    case pos => simp [he, hp]
    case neg => rw [hf _ (by simp [Item.paths, ho]) he, h.old old ho]; simp [he]

theorem Batch.restore (a : Accepted s₀ call items) (h : Batch sha256 s₀ items restored entries s)
    (hc : c ∈ items) (hpath : path ∈ c.paths) (hp : files path = s₀.files path)
    (hf : ∀ d ∈ items, ∀ x, d.Touches x → x ≠ path → files x = s.files x) :
    Batch sha256 s₀ items (restored ++ [path]) entries { s with files } where
  own        := h.own
  beside     := h.beside
  holds e he := by
    have hitem : e.item ∈ items := h.own ▸ List.mem_map_of_mem he
    have hkeep (st : String) (hst : e.item.staging = .ok st) : files st = s.files st := by
      refine hf _ hitem st (.inr hst) fun he => ?_
      exact (a.quiet.staging _ hitem _ hc st hst).left (he ▸ hpath)
    have hplaced {g : Stage} (placed : Placed s₀.files restored e.item g s.files) :
        Placed s₀.files (restored ++ [path]) e.item g files :=
      placed.restore hp fun x hx => hf _ hitem x (.inl hx)
    cases h.holds e he with
    | pending placed row staging =>
      exact .pending (hplaced placed) row fun st hst => (hkeep st hst).trans (staging st hst)
    | held placed named owned staged =>
      exact .held (hplaced placed) named owned.of_files (staged.congr (hkeep _ named))
    | discarded placed row => exact .discarded (hplaced placed) row

-- All files are as before, and no intent is left.
theorem Batch.discard (hb : s₀.db.Beside {m | m ∈ items.map (·.messageId)} s.db)
    (hf : ∀ c ∈ items, ∀ path ∈ c.paths, s.files path = s₀.files path)
    (hr : ∀ c ∈ items, s.db.row? c.messageId = none) :
    Batch sha256 s₀ items [] (items.map .discarded) s where
  own        := by simp [Function.comp_def, Entry.item]
  beside     := hb
  holds e he := by
    have ⟨c, hc, he⟩ := List.mem_map.mp he
    subst he
    refine .discarded ⟨?_, fun old ho => ?_⟩ (hr c hc)
    · simpa [Stage.written] using hf c hc _ List.mem_cons_self
    · simpa [Stage.removed] using hf c hc old (by simp [Item.paths, ho])

theorem Batch.before_files (h : Batch sha256 s₀ items restored entries s)
    (hr : ∀ e ∈ entries, e.stage.begun = false ∨ ∀ path ∈ e.item.paths, path ∈ restored) :
    ∀ c ∈ items, ∀ path ∈ c.paths, s.files path = s₀.files path := by
  intro c hc path hp
  rw [← h.own] at hc
  have ⟨e, he, hc⟩ := List.mem_map.mp hc
  subst hc
  have placed : Placed s₀.files restored e.item e.stage s.files := by
    cases h.holds e he with
    | pending placed | held placed | discarded placed => exact placed
  have hflags : (e.stage.written = true → path ∈ restored) ∧
      (e.stage.removed = true → path ∈ restored) := by
    cases hr e he with
    | inl hb => cases hg : e.stage <;> simp_all [Stage.begun, Stage.written, Stage.removed]
    | inr hm => exact ⟨fun _ => hm path hp, fun _ => hm path hp⟩
  cases List.mem_cons.mp hp with
  | inl hp =>
    subst hp
    exact placed.target.trans <| if_neg fun h => h.right (hflags.left h.left)
  | inr hp =>
    have ho : e.item.oldPath = some path := by simpa using hp
    exact (placed.old path ho).trans <| if_neg fun h => h.right (hflags.right h.left)

-- Files that the batch does not work on
theorem Batch.elsewhere (h : Batch sha256 s₀ items restored entries s)
    (hf : ∀ c ∈ items, ∀ path, c.Touches path → files path = s.files path) :
    Batch sha256 s₀ items restored entries { s with files } where
  own        := h.own
  beside     := h.beside
  holds e he := (h.holds e he).congr rfl (hf _ (h.own ▸ List.mem_map_of_mem he))

theorem Batch.messageId {b : Body} {p : Prepared} (h : Batch sha256 s₀ items restored b.entries s)
    (hp : p ∈ b.prepared) : p.item ∈ items ∧ p.item.staging = .ok p.staging ∧
      p.intent.messageId = p.item.messageId := by
  have ⟨g, hm⟩ := Body.mem_prepared.mp hp
  have hitem : (Entry.held p g).item ∈ items := h.own ▸ List.mem_map_of_mem hm
  cases h.holds _ hm with
  | held _ named owned _ => exact ⟨hitem, named, owned.describes.messageId⟩

theorem Batch.discardIntents_row? {b : Body} (h : Batch sha256 s₀ items restored b.entries s)
    (hc : c ∈ items) : (discardIntents s.db b.prepared).row? c.messageId = none := by
  rw [← h.own] at hc
  have ⟨e, he, hc⟩ := List.mem_map.mp hc
  subst hc
  rw [discardIntents, OutboxDb.row?_delete]
  cases h.holds e he with
  | pending _ row | discarded _ row => exact congrArg (Option.filter _) row
  | held _ _ owned _                =>
    have hm := owned.describes.messageId
    simp only [Entry.item, owned.row, Option.filter_eq_none_iff]
    intro row hrow
    cases hrow
    simpa using ⟨_, Body.mem_prepared.mpr ⟨_, he⟩, rfl⟩

theorem Batch.discardIntents_beside {b : Body}
    (h : Batch sha256 s₀ items restored b.entries s) :
    s₀.db.Beside {m | m ∈ items.map (·.messageId)} (discardIntents s.db b.prepared) := by
  intro j hj
  have hkeep : (discardIntents s.db b.prepared).row? j = s.db.row? j := by
    rw [discardIntents, OutboxDb.row?_delete]
    cases hr : s.db.row? j with
    | none     => rfl
    | some row =>
      refine Option.filter_some_pos ?_
      rw [Bool.not_eq_true', List.any_eq_false]
      intro p hp
      have ⟨hc, _, hm⟩ := h.messageId hp
      have hj : p.item.messageId ≠ j := fun he => hj (he ▸ List.mem_map_of_mem hc)
      simpa [hm, OutboxDb.messageId_of_row? hr] using hj
  rw [hkeep]
  exact h.beside j hj

-- What holds at a position of the call
structure BatchPosition.At (sha256 : Bytes → String) (s₀ : Project) (items : List Item)
    (p : BatchPosition) (s : Project) : Prop where
  batch : Batch sha256 s₀ items p.restored (p.entries items) s
  rest  : p.Rest s₀.files items

variable {capacity : Nat} {e : Event} {p p' : BatchPosition}

theorem BatchCall.begin_at (a : Accepted s₀ call items)
    (h : Batch sha256 s₀ items [] (items.map .pending) s) :
    (call.begin s.files).At sha256 s₀ items s ∧
      (BatchPosition.finished .busy).At sha256 s₀ items s := by
  have hf := h.before_files fun e he => by
    have ⟨c, _, he⟩ := List.mem_map.mp he
    exact .inl (he ▸ rfl)
  have hrow (c : Item) (hc : c ∈ items) : s.db.row? c.messageId = none := by
    cases h.holds _ (List.mem_map_of_mem hc) with | pending _ row _ => exact row
  have finished : Batch sha256 s₀ items [] _ s := .discard h.beside hf hrow
  refine ⟨?_, finished, trivial⟩
  unfold begin
  rw [a.valid]
  dsimp only
  split
  case h_1 => exact ⟨finished, trivial⟩
  case h_2 =>
    refine ⟨h, fun c hc path hp => .inr ?_, fun r hr => ?_⟩
    · have hm := mem_affectedPaths.mpr ⟨c, hc, hp⟩
      simpa [Function.comp_def] using hm
    · have ⟨path, hm, hr⟩ := List.mem_map.mp hr
      subst hr
      have ⟨c, hc, hp⟩ := mem_affectedPaths.mp hm
      exact ⟨hf c hc path hp, c, hc, hp⟩

theorem BatchCall.step_at (a : Accepted s₀ call items) (h : p.At sha256 s₀ items s)
    (hs : call.step sha256 capacity s p e = some (s', p')) : p'.At sha256 s₀ items s' := by
  have ⟨hb, hr⟩ := h
  unfold step at hs
  split at hs
  case h_1 => cases hs; exact (call.begin_at a hb).left
  case h_2 =>
    split at hs
    case h_1 => cases hs; exact (call.begin_at a hb).right
    case h_2 => cases hs
  case h_3 done =>
    cases hs
    have hb : Batch sha256 s₀ items [] (Body.marking done []).entries _ := hb
    rw [Body.entries, List.map_nil, List.append_nil] at hb
    exact ⟨hb, trivial⟩
  case h_4 snapshots body _ =>
    have ⟨⟨t, next⟩, hstep, hs⟩ := Option.map_eq_some_iff.mp hs
    have ht := Body.step_batch a hb hstep
    cases hs
    cases next with
    | none   => exact ⟨ht, hr⟩
    | some b => exact ⟨ht, hr⟩
  case h_5 body restored path rest =>
    split at hs
    case isTrue => cases hs
    case isFalse =>
      cases hs
      have ⟨hp, c, hc, hpath⟩ := hr.snapshots _ List.mem_cons_self
      refine ⟨hb.restore a hc hpath (Files.unlink_self.trans hp) ?_, hr.next⟩
      exact fun _ _ _ _ hne => Files.unlink_ne hne
  case h_6 body restored path content rest =>
    have ⟨_, c, hc, hpath⟩ := hr.snapshots _ List.mem_cons_self
    split at hs
    case h_1 => cases hs
    case h_2 temporary htemp =>
      split at hs
      case isTrue => cases hs
      case isFalse =>
        cases hs
        have hfresh (d : Item) (hd : d ∈ items) := a.quiet.temporary c hc d hd path hpath _ htemp
        refine ⟨hb.elsewhere fun d hd x hx => Files.write_ne ?_, ?_, hfresh⟩
        · exact fun he => hfresh d hd (he ▸ hx)
        · exact hr
  case h_7 body restored temporary path content rest n =>
    cases hs
    have ⟨hr, hfresh⟩ := hr
    refine ⟨hb.elsewhere fun d hd x hx => Files.write_ne ?_, hr, hfresh⟩
    exact fun he => hfresh d hd (he ▸ hx)
  case h_8 body restored temporary path content rest =>
    cases hs
    have ⟨hr, hfresh⟩ := hr
    have ⟨hp, c, hc, hpath⟩ := hr.snapshots _ List.mem_cons_self
    refine ⟨hb.restore a hc hpath (Files.write_self.trans hp) fun d hd x hx hne => ?_, hr.next⟩
    exact (Files.write_ne hne).trans <| Files.unlink_ne fun he => hfresh d hd (he ▸ hx)
  case h_9 body restored => cases hs; exact ⟨hb, hr⟩
  case h_10 body restored =>
    cases hs
    have hf := hb.before_files fun e he => .inr fun path hp =>
      (hr.covers _ (hb.own ▸ List.mem_map_of_mem he) path hp).resolve_right (by simp)
    refine ⟨.discard hb.discardIntents_beside hf fun c hc => hb.discardIntents_row? hc, ?_⟩
    intro st hst c hc
    have ⟨p, hp, hst⟩ := List.mem_map.mp hst
    have ⟨hitem, named, _⟩ := hb.messageId hp
    exact hst ▸ (a.quiet.staging _ hitem c hc _ named).left
  case h_11 staging rest =>
    cases hs
    have hb : Batch sha256 s₀ items [] (items.map .discarded) s := hb
    have hf := hb.before_files fun e he => by
      have ⟨c, _, he⟩ := List.mem_map.mp he
      exact .inl (he ▸ rfl)
    refine ⟨.discard hb.beside (fun c hc path hp => ?_) fun c hc => ?_, ?_⟩
    · refine (Files.unlink_ne fun he => ?_).trans (hf c hc path hp)
      exact hr staging List.mem_cons_self c hc (he ▸ hp)
    · cases hb.holds _ (List.mem_map_of_mem hc) with | discarded _ row => exact row
    · exact fun st hst => hr st (List.mem_cons_of_mem _ hst)
  case h_12 => cases hs; exact ⟨hb, trivial⟩
  case h_13 => cases hs

theorem BatchCall.run_at (a : Accepted s₀ call items) {events : List Event}
    {t : Project × BatchPosition}
    (h : (call.system sha256 capacity).run (s₀, .start) events = some t) :
    t.snd.At sha256 s₀ items t.fst := by
  refine TransitionSystem.run_preserves (M := call.system sha256 capacity)
    (I := fun t => t.snd.At sha256 s₀ items t.fst) (fun h hs => step_at a h hs) ?_ h
  refine ⟨?_, trivial⟩
  exact {
    own    := by simp [BatchPosition.entries, Function.comp_def, Entry.item]
    beside := .refl
    holds  := by
      intro e he
      have ⟨c, hc, he⟩ := List.mem_map.mp he
      subst he
      refine .pending ⟨?_, fun _ _ => ?_⟩ (a.quiet.rows c hc) (a.quiet.absent c hc)
      · simp [Stage.written]
      · simp [Stage.removed]
  }

end Handler
end Outbox
