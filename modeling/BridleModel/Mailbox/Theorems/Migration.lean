import BridleModel.Json.Canonical
import BridleModel.Mailbox.Migration

open Python

namespace Mail

variable {V : Type} {P : Parsers V} {projectId : String} {guard : LegacyRow → Bool}
  {file file' : MailFile} {rows done : List LegacyRow} {row : LegacyRow} {migration : MigrationRow}
  {migrations : List MigrationRow} {sequences : List Int}

section Preflight

-- What the preflight has checked of a row, and what it writes into the row's migration
structure Preflighted (P : Parsers V) (projectId : String) (row : LegacyRow) (migration : MigrationRow) :
    Prop where
  rowId          : migration.rowId = row.id
  id             : 1 ≤ row.id
  sequenceNo     : 1 ≤ row.sequenceNo
  attempt        : 0 ≤ row.attempt
  messageId      : row.messageId ≠ ""
  messageType    : row.messageType ≠ ""
  status         : validateLegacyState row = .ok migration.status
  sourceAddress  : canonicalLegacyAddress projectId row.sourceAddress = .ok migration.sourceAddress
  targetAddress  : canonicalLegacyAddress projectId row.targetAddress = .ok migration.targetAddress
  payloadJson    : canonicalJson P row.payloadJson = .ok migration.payloadJson
  nextRetryAt    : canonicalOptional P row.nextRetryAt = .ok migration.nextRetryAt
  leaseExpiresAt : canonicalOptional P row.leaseExpiresAt = .ok migration.leaseExpiresAt
  createdAt      : canonicalRequired P row.createdAt = .ok migration.createdAt
  updatedAt      : canonicalRequired P row.updatedAt = .ok migration.updatedAt

theorem preflightRow_ok (h : preflightRow P projectId sequences row = .ok migration) :
    Preflighted P projectId row migration ∧ row.sequenceNo ∉ sequences := by
  simp only [preflightRow, Except.bind_eq_ok_iff, Except.raiseIf_eq_ok_iff, not_or, not_lt] at h
  obtain ⟨_, ⟨hi, hs, ha, hn⟩, _, ⟨hm, ht⟩, _, h₁, _, h₂, _, h₃, _, h₄, _, h₅, _, h₆, _, h₇, _, h₈, h⟩ := h
  cases h
  exact ⟨⟨rfl, hi, hs, ha, hm, ht, h₁, h₂, h₃, h₄, h₅, h₆, h₇, h₈⟩, hn⟩

-- The preflight makes one migration of each row, and no two rows have one sequence number.
theorem preflightRows_ok (h : preflightRows P projectId sequences rows = .ok migrations) :
    List.Forall₂ (Preflighted P projectId) rows migrations ∧
      (rows.map (·.sequenceNo)).Nodup ∧ ∀ row ∈ rows, row.sequenceNo ∉ sequences := by
  induction rows generalizing sequences migrations with
  | nil =>
    cases h
    exact ⟨.nil, .nil, by simp⟩
  | cons row rows hi =>
    have ⟨migration, hm, h⟩ := Except.bind_eq_ok_iff.mp h
    have ⟨migrations', hms, h⟩ := Except.bind_eq_ok_iff.mp h
    cases h
    have ⟨hf, hn, hs⟩ := hi hms
    have ⟨hp, hr⟩ := preflightRow_ok hm
    refine ⟨.cons hp hf, ?_, ?_⟩
    · refine List.nodup_cons.mpr ⟨fun hc => ?_, hn⟩
      have ⟨row', hrow, he⟩ := List.mem_map.mp hc
      exact hs row' hrow (he ▸ List.mem_cons_self)
    · intro row' hrow
      cases List.mem_cons.mp hrow with
      | inl he => exact he ▸ hr
      | inr hm => exact fun hc => hs row' hm (List.mem_cons_of_mem _ hc)

theorem preflightMailDatabase_ok
    (h : preflightMailDatabase P projectId file = .ok (some migrations)) :
    file.userVersion = 0 ∧ preflightRows P projectId [] file.rows = .ok migrations := by
  have ⟨_, _, h⟩ := Except.bind_eq_ok_iff.mp h
  have ⟨_, _, h⟩ := Except.bind_eq_ok_iff.mp h
  split at h
  case isTrue  => cases h
  case isFalse =>
    have ⟨_, hv, h⟩ := Except.bind_eq_ok_iff.mp h
    have ⟨_, hr, h⟩ := Except.map_eq_ok_iff.mp h
    cases h
    exact ⟨by simpa using hv, hr⟩

end Preflight

section Updates

-- The row as its migration leaves it
def MigrationRow.rewritten (migration : MigrationRow) (row : LegacyRow) : LegacyRow :=
  match migration.payloadJson with
  | .utf8 text  => migration.apply text row
  | .surrogates => row

theorem MigrationRow.rewritten_frame :
    (migration.rewritten row).id = row.id ∧ (migration.rewritten row).sequenceNo = row.sequenceNo := by
  unfold rewritten
  split <;> exact ⟨rfl, rfl⟩

-- A guard that an earlier attempt left behind lets the UPDATE pass.
structure Admits (guard : LegacyRow → Bool) (file : MailFile) (row : LegacyRow)
    (migration : MigrationRow) : Prop where
  payload : migration.payloadJson ≠ .surrogates
  guard   : V2.updateGuard ∈ file.triggers → guard (migration.rewritten row)

structure SameSchema (file file' : MailFile) : Prop where
  storeKind   : file'.storeKind = file.storeKind
  projectId   : file'.projectId = file.projectId
  userVersion : file'.userVersion = file.userVersion
  indexes     : file'.indexes = file.indexes
  triggers    : file'.triggers = file.triggers

theorem SameSchema.refl : SameSchema file file :=
  ⟨rfl, rfl, rfl, rfl, rfl⟩

theorem SameSchema.trans {file₁ file₂ file₃ : MailFile} (h₁ : SameSchema file₁ file₂)
    (h₂ : SameSchema file₂ file₃) : SameSchema file₁ file₃ where
  storeKind   := h₂.storeKind.trans h₁.storeKind
  projectId   := h₂.projectId.trans h₁.projectId
  userVersion := h₂.userVersion.trans h₁.userVersion
  indexes     := h₂.indexes.trans h₁.indexes
  triggers    := h₂.triggers.trans h₁.triggers

theorem map_other {n : Int} {f : LegacyRow → LegacyRow} (h : ∀ row ∈ rows, row.id ≠ n) :
    (rows.map fun row => if row.id = n then f row else row) = rows := by
  induction rows with
  | nil              => rfl
  | cons row rows hi =>
    have ⟨hh, ht⟩ := List.forall_mem_cons.mp h
    rw [List.map_cons, if_neg hh, hi ht]

theorem update_eq_some (hr : file.rows = done ++ row :: rows) (hid : migration.rowId = row.id)
    (ha : Admits guard file row migration) :
    ∃ file', file.update guard migration = some file' ∧
      file'.rows = done ++ migration.rewritten row :: rows ∧ SameSchema file file' := by
  have ho := hr ▸ file.ordered
  have ⟨_, ho', hd⟩ := List.pairwise_append.mp ho
  have ⟨hl, _⟩ := List.pairwise_cons.mp ho'
  have hdone : ∀ row' ∈ done, row'.id ≠ migration.rowId :=
    fun row' h => hid ▸ (hd row' h row List.mem_cons_self).ne
  have hrows : ∀ row' ∈ rows, row'.id ≠ migration.rowId := fun row' h => hid ▸ (hl row' h).ne'
  unfold MailFile.update
  split
  case h_1 hp => exact absurd hp ha.payload
  case h_2 text hp =>
    have hw : migration.rewritten row = migration.apply text row := by simp [MigrationRow.rewritten, hp]
    dsimp only
    split
    case isTrue h =>
      refine absurd (List.all_eq_true.mpr fun row' hm => ?_) h.right
      have hg := hw ▸ ha.guard h.left
      rw [hr] at hm
      cases List.mem_append.mp hm with
      | inl hm => simp [hdone row' hm]
      | inr hm =>
        cases List.mem_cons.mp hm with
        | inl he => simp [he, hg]
        | inr hm => simp [hrows row' hm]
    case isFalse =>
      refine ⟨_, rfl, ?_, ⟨rfl, rfl, rfl, rfl, rfl⟩⟩
      change file.rows.map (fun row => if row.id = migration.rowId then migration.apply text row else row) = _
      rw [hr, List.map_append, List.map_cons, map_other hdone, map_other hrows, if_pos hid.symm, hw]

theorem update_eq_none (hr : row ∈ file.rows) (hid : migration.rowId = row.id)
    (ha : ¬Admits guard file row migration) : file.update guard migration = none := by
  unfold MailFile.update
  split
  case h_1 => rfl
  case h_2 text hp =>
    have hw : migration.rewritten row = migration.apply text row := by simp [MigrationRow.rewritten, hp]
    dsimp only
    split
    case isTrue => rfl
    case isFalse h =>
      refine absurd ⟨by simp [hp], fun ht => ?_⟩ ha
      have hall := not_not.mp fun hc => h ⟨ht, hc⟩
      have hrow := List.all_eq_true.mp hall row hr
      simpa [hid, hw] using hrow

-- The updates of a file whose rows from some point on are still to be migrated
theorem updates_eq_some (hr : file.rows = done ++ rows)
    (hm : List.Forall₂ (fun row migration => migration.rowId = row.id) rows migrations)
    (ha : List.Forall₂ (Admits guard file) rows migrations) :
    ∃ file', Connection.contents (migrations.map (MailFile.update guard)) file = some file' ∧
      file'.rows = done ++ List.zipWith MigrationRow.rewritten migrations rows ∧
      SameSchema file file' := by
  induction hm generalizing file done with
  | nil => exact ⟨file, rfl, hr, .refl⟩
  | @cons row migration rows migrations hid _ hi =>
    have ⟨hh, ht⟩ := List.forall₂_cons.mp ha
    have ⟨file₁, hu, hr₁, hs₁⟩ := update_eq_some hr hid hh
    have ht₁ : List.Forall₂ (Admits guard file₁) rows migrations :=
      ht.imp fun _ _ h => ⟨h.payload, hs₁.triggers ▸ h.guard⟩
    have ⟨file₂, hc, hr₂, hs₂⟩ := hi (hr₁.trans (List.append_cons ..)) ht₁
    refine ⟨file₂, ?_, ?_, hs₁.trans hs₂⟩
    · rw [List.map_cons, Connection.contents, List.foldlM_cons, hu]
      exact hc
    · rw [hr₂, List.append_assoc]
      rfl

theorem updates_eq_none (hr : file.rows = done ++ rows)
    (hm : List.Forall₂ (fun row migration => migration.rowId = row.id) rows migrations)
    (ha : ¬List.Forall₂ (Admits guard file) rows migrations) :
    Connection.contents (migrations.map (MailFile.update guard)) file = none := by
  induction hm generalizing file done with
  | nil => exact absurd .nil ha
  | @cons row migration rows migrations hid _ hi =>
    rw [List.map_cons, Connection.contents, List.foldlM_cons]
    by_cases hh : Admits guard file row migration
    case neg => rw [update_eq_none (hr ▸ List.mem_append_right _ List.mem_cons_self) hid hh]; rfl
    case pos =>
      obtain ⟨file₁, hu, hr₁, hs₁⟩ := update_eq_some hr hid hh
      rw [hu]
      refine hi (hr₁.trans (List.append_cons ..)) fun ht => ha (.cons hh ?_)
      exact ht.imp fun _ _ h => ⟨h.payload, hs₁.triggers ▸ h.guard⟩

end Updates

section Schema

variable {name : String} {names : List String}

def added (names : List String) (name : String) : List String :=
  if name ∈ names then names else names ++ [name]

theorem mem_added : name ∈ added names name := by
  unfold added
  split
  case isTrue h => exact h
  case isFalse  => simp

theorem subset_added : names ⊆ added names name := by
  unfold added
  split
  case isTrue  => exact List.Subset.refl _
  case isFalse => exact List.subset_append_left ..

theorem createIndex_eq :
    file.createIndex name = some { file with indexes := added file.indexes name } := by
  unfold MailFile.createIndex added
  split <;> rfl

theorem createTrigger_eq :
    file.createTrigger name = some { file with triggers := added file.triggers name } := by
  unfold MailFile.createTrigger added
  split <;> rfl

def withIndexes (file : MailFile) : MailFile :=
  { file with indexes := V2.indexes.foldl added file.indexes }

theorem mem_withIndexes (h : name ∈ V2.indexes) : name ∈ (withIndexes file).indexes := by
  simp only [V2.indexes, List.mem_cons, List.not_mem_nil, or_false] at h
  cases h with
  | inl h => exact h ▸ subset_added (subset_added mem_added)
  | inr h =>
    cases h with
    | inl h => exact h ▸ subset_added mem_added
    | inr h => exact h ▸ mem_added

theorem createIndexes_eq (h : (file.rows.map (·.sequenceNo)).Nodup) :
    Connection.contents [MailFile.createSequenceIndex, MailFile.createIndex V2.deliveryIndex,
      MailFile.createIndex V2.leaseIndex] file = some (withIndexes file) := by
  have hs : file.createSequenceIndex = some { file with indexes := added file.indexes V2.sequenceIndex } := by
    rw [MailFile.createSequenceIndex, if_pos (.inr h), createIndex_eq]
  simp [Connection.contents, hs, createIndex_eq, withIndexes, V2.indexes]

end Schema
section Atomic

-- The rows of the file as they were, and nothing of version 2 beside them
structure Untouched (file file' : MailFile) : Prop where
  same        : file' = file
  userVersion : file'.userVersion = 0
  indexes     : ∀ name ∈ V2.indexes, name ∉ file'.indexes
  triggers    : ∀ name ∈ V2.guards, name ∉ file'.triggers

structure Migrated (migrations : List MigrationRow) (file file' : MailFile) : Prop where
  rows        : file'.rows = List.zipWith MigrationRow.rewritten migrations file.rows
  storeKind   : file'.storeKind = file.storeKind
  projectId   : file'.projectId = file.projectId
  userVersion : file'.userVersion = 2
  indexes     : ∀ name ∈ V2.indexes, name ∈ file'.indexes
  triggers    : ∀ name ∈ V2.guards, name ∈ file'.triggers

-- No earlier attempt has left anything of version 2 in the file.
structure Plain (file : MailFile) : Prop where
  indexes  : ∀ name ∈ V2.indexes, name ∉ file.indexes
  triggers : ∀ name ∈ V2.guards, name ∉ file.triggers

-- Every UPDATE passes.
def Admitted (guard : LegacyRow → Bool) (migrations : List MigrationRow) (file : MailFile) : Prop :=
  List.Forall₂ (Admits guard file) file.rows migrations

theorem sequenceNos_rewritten (hm : List.Forall₂ (Preflighted P projectId) rows migrations) :
    (List.zipWith MigrationRow.rewritten migrations rows).map (·.sequenceNo) =
      rows.map (·.sequenceNo) := by
  induction hm with
  | nil           => rfl
  | cons _ _ hi   => simp [MigrationRow.rewritten_frame.right, hi]

theorem body_eq_some (hp : List.Forall₂ (Preflighted P projectId) file.rows migrations)
    (hn : (file.rows.map (·.sequenceNo)).Nodup) (ha : Admitted guard migrations file) :
    ∃ file', Connection.contents (migrationBody guard migrations) file = some (withIndexes file') ∧
      file'.rows = List.zipWith MigrationRow.rewritten migrations file.rows ∧ SameSchema file file' := by
  have ⟨file', hu, hr, hs⟩ :=
    updates_eq_some (List.nil_append _).symm (hp.imp fun _ _ h => h.rowId) ha
  refine ⟨file', ?_, hr, hs⟩
  rw [migrationBody, Connection.contents_append, hu]
  exact createIndexes_eq (by rwa [hr, List.nil_append, sequenceNos_rewritten hp])

theorem body_eq_none (hp : List.Forall₂ (Preflighted P projectId) file.rows migrations)
    (ha : ¬Admitted guard migrations file) :
    Connection.contents (migrationBody guard migrations) file = none := by
  rw [migrationBody, Connection.contents_append,
    updates_eq_none (List.nil_append _).symm (hp.imp fun _ _ h => h.rowId) ha]
  rfl

-- What follows the statements that the function means to be its transaction
def migrationTail : List (Statement MailFile) :=
  Statement.script [MailFile.createTrigger V2.insertGuard, MailFile.createTrigger V2.updateGuard] ++
    [.execute (MailFile.setUserVersion 2), .commit]

theorem migrateMailDatabase_eq :
    migrateMailDatabase guard migrations =
      Connection.body (migrationBody guard migrations) ++ migrationTail :=
  List.append_assoc (Connection.body _) ..

theorem length_migrationBody : (migrationBody guard migrations).length = migrations.length + 3 := by
  simp [migrationBody]

-- Before the script commits it, the transaction is lost as a whole.
theorem migrated_of_le {completed : Nat} (h : completed ≤ migrations.length + 4) :
    file.migrated guard migrations completed = file := by
  rw [MailFile.migrated, Connection.rollback_durable, migrateMailDatabase_eq]
  cases hr : (Connection.opened file).run (Connection.body (migrationBody guard migrations)) with
  | none   => rw [Connection.interrupted_append_of_run_none hr, Connection.interrupted_body]
  | some c =>
    rw [Connection.interrupted_append hr, if_pos ?_, Connection.interrupted_body]
    simpa [Connection.length_body, length_migrationBody] using h

theorem migrated_of_none (h : Connection.contents (migrationBody guard migrations) file = none)
    {completed : Nat} : file.migrated guard migrations completed = file := by
  rw [MailFile.migrated, Connection.rollback_durable, migrateMailDatabase_eq,
    Connection.interrupted_append_of_run_none (by simp [Connection.run_body, h]), Connection.interrupted_body]

theorem migrated_of_lt (h : Connection.contents (migrationBody guard migrations) file = some file')
    {completed : Nat} (hk : migrations.length + 4 < completed) :
    file.migrated guard migrations completed =
      (Connection.interrupted { durable := file, transaction := some file' } migrationTail
        (completed - (migrations.length + 4))).durable := by
  have hl : (Connection.body (migrationBody guard migrations)).length = migrations.length + 4 := by
    rw [Connection.length_body, length_migrationBody]
  rw [MailFile.migrated, Connection.rollback_durable, migrateMailDatabase_eq,
    Connection.interrupted_append (by rw [Connection.run_body, h]; rfl), hl, if_neg (by omega)]

variable {completed : Nat}

def withTrigger (name : String) (file : MailFile) : MailFile :=
  { file with triggers := added file.triggers name }

-- The durable file after the commit of the script and the statements that follow it one by one
theorem interrupted_tail {j : Nat} :
    (Connection.interrupted { durable := file, transaction := some file' } migrationTail
      (j + 1)).durable =
      match j with
      | 0     => file'
      | 1     => withTrigger V2.insertGuard file'
      | 2     => withTrigger V2.updateGuard (withTrigger V2.insertGuard file')
      | _ + 3 =>
        { withTrigger V2.updateGuard (withTrigger V2.insertGuard file') with userVersion := 2 } := by
  match j with
  | 0 | 1 | 2 | 3 | _ + 4 =>
    simp [migrationTail, Statement.script, Connection.interrupted, Connection.perform, createTrigger_eq,
      MailFile.setUserVersion, withTrigger]

theorem mem_withTriggers {name : String} (h : name ∈ V2.guards) :
    name ∈ (withTrigger V2.updateGuard (withTrigger V2.insertGuard file)).triggers := by
  simp only [V2.guards, List.mem_cons, List.not_mem_nil, or_false] at h
  cases h with
  | inl h => exact h ▸ subset_added mem_added
  | inr h => exact h ▸ mem_added

-- An index of version 2 beside version 0 is neither the one nor the other.
theorem torn {file'' : MailFile} (hi : V2.sequenceIndex ∈ file''.indexes) (hv : file''.userVersion = 0) :
    ¬(Untouched file file'' ∨ Migrated migrations file file'') := by
  intro h
  cases h with
  | inl hu => exact hu.indexes V2.sequenceIndex List.mem_cons_self hi
  | inr hm => exact absurd (hv ▸ hm.userVersion) (by decide)

-- Once the version is set, nothing can be lost any more.
theorem migrated_of_admitted (hr : preflightRows P projectId [] file.rows = .ok migrations)
    (ha : Admitted guard migrations file) (hk : migrations.length + 8 ≤ completed) :
    Migrated migrations file (file.migrated guard migrations completed) := by
  have ⟨hp, hn, _⟩ := preflightRows_ok hr
  have ⟨file₁, hb, hrows, hs⟩ := body_eq_some hp hn ha
  have ⟨j, hj⟩ : ∃ j, completed - (migrations.length + 4) = (j + 3) + 1 :=
    ⟨completed - (migrations.length + 8), by omega⟩
  rw [migrated_of_lt hb (by omega), hj, interrupted_tail]
  exact {
    rows        := hrows
    storeKind   := hs.storeKind
    projectId   := hs.projectId
    userVersion := rfl
    indexes     := fun _ h => mem_withIndexes h
    triggers    := fun _ h => mem_withTriggers h
  }

-- Between the commit of the script and the statement that sets the version the file is torn.
theorem migrated_torn (hv : file.userVersion = 0) (hr : preflightRows P projectId [] file.rows = .ok migrations)
    (ha : Admitted guard migrations file) {j : Nat} (hk : completed = migrations.length + 4 + (j + 1))
    (hj : j < 3) :
    ¬(Untouched file (file.migrated guard migrations completed) ∨
      Migrated migrations file (file.migrated guard migrations completed)) := by
  have ⟨hp, hn, _⟩ := preflightRows_ok hr
  have ⟨file₁, hb, _, hs⟩ := body_eq_some hp hn ha
  have hi : V2.sequenceIndex ∈ (withIndexes file₁).indexes := mem_withIndexes List.mem_cons_self
  have hv₁ : (withIndexes file₁).userVersion = 0 := hs.userVersion.trans hv
  rw [migrated_of_lt hb (by omega), show completed - (migrations.length + 4) = j + 1 by omega,
    interrupted_tail]
  match j with
  | 0 => exact torn hi hv₁
  | 1 => exact torn hi hv₁
  | 2 => exact torn hi hv₁

theorem migration_atomic (h : preflightMailDatabase P projectId file = .ok (some migrations)) :
    (Untouched file (file.migrated guard migrations completed) ∨
      Migrated migrations file (file.migrated guard migrations completed)) ↔
    (Plain file ∧ (completed ≤ migrations.length + 4 ∨ ¬Admitted guard migrations file)) ∨
      (migrations.length + 8 ≤ completed ∧ Admitted guard migrations file) := by
  have ⟨hv, hr⟩ := preflightMailDatabase_ok h
  have ⟨hp, hn, _⟩ := preflightRows_ok hr
  -- A file that nothing has changed is untouched when it is plain.
  have same (he : file.migrated guard migrations completed = file) :
      (Untouched file (file.migrated guard migrations completed) ∨
        Migrated migrations file (file.migrated guard migrations completed)) ↔ Plain file := by
    rw [he]
    constructor
    · intro hu
      cases hu with
      | inl hu => exact ⟨hu.indexes, hu.triggers⟩
      | inr hm => exact absurd (hv ▸ hm.userVersion) (by decide)
    · exact fun hf => .inl ⟨rfl, hv, hf.indexes, hf.triggers⟩
  by_cases ha : Admitted guard migrations file
  case neg =>
    simp [ha, same (migrated_of_none (body_eq_none hp ha))]
  case pos =>
    by_cases hk : completed ≤ migrations.length + 4
    case pos =>
      have hn8 : ¬migrations.length + 8 ≤ completed := by omega
      simp [ha, hk, hn8, same (migrated_of_le hk)]
    case neg =>
      by_cases hk₈ : migrations.length + 8 ≤ completed
      case pos => simp [ha, hk, hk₈, migrated_of_admitted hr ha hk₈]
      case neg =>
        have ⟨j, hj⟩ : ∃ j, completed = migrations.length + 4 + (j + 1) :=
          ⟨completed - (migrations.length + 5), by omega⟩
        simp only [ha, hk, hk₈, not_true_eq_false, or_self, and_false, and_true, iff_false]
        exact migrated_torn hv hr ha hj (by omega)

section Torn

-- The values of JSON texts with the fields of a dict in the order of their keys
def isoParsers : Parsers Json where
  fromIsoFormat := DateTime.parseUtc
  loads text    := (Json.loads text).map Json.canonical
  dumps v       := some (.utf8 v.dumps)

def legacyFile : MailFile where
  storeKind   := some "mail"
  projectId   := some "p"
  userVersion := 0
  rows        := [{
    id             := 1
    messageId      := "m"
    sourceAddress  := "agent://parent"
    targetAddress  := "agent://p/child/1"
    messageType    := "TaskAssigned"
    payloadJson    := "\x7b \x7d"
    sequenceNo     := 1
    status         := "pending"
    attempt        := 0
    nextRetryAt    := none
    leaseOwner     := none
    leaseToken     := none
    leaseExpiresAt := none
    createdAt      := some "2026-07-14T01:02:03.000000Z"
    updatedAt      := some "2026-07-14T01:02:03.000000Z"
  }]
  ordered     := List.pairwise_singleton ..
  indexes     := []
  triggers    := []

def legacyMigration : MigrationRow where
  rowId          := 1
  status         := "pending"
  sourceAddress  := "agent://p/parent/1"
  targetAddress  := "agent://p/child/1"
  payloadJson    := .utf8 "\x7b\x7d"
  nextRetryAt    := none
  leaseExpiresAt := none
  createdAt      := "2026-07-14T01:02:03.000000Z"
  updatedAt      := "2026-07-14T01:02:03.000000Z"

theorem preflight_legacyFile :
    preflightMailDatabase isoParsers "p" legacyFile = .ok (some [legacyMigration]) := by
  decide +kernel

theorem migration_atomic_completed :
    Migrated [legacyMigration] legacyFile
      (legacyFile.migrated (fun _ => true) [legacyMigration] 9) := by
  have ha : Admitted (fun _ => true) [legacyMigration] legacyFile := .cons ⟨nofun, fun _ => rfl⟩ .nil
  cases (migration_atomic preflight_legacyFile).mpr (.inr ⟨Nat.le_refl 9, ha⟩) with
  | inl hu => exact absurd hu.userVersion (by decide +kernel)
  | inr hm => exact hm

-- A crash between the commit that `executescript` makes and the first of its statements
theorem migration_not_atomic :
    preflightMailDatabase isoParsers "p" legacyFile = .ok (some [legacyMigration]) ∧
      ¬(Untouched legacyFile (legacyFile.migrated (fun _ => true) [legacyMigration] 6) ∨
        Migrated [legacyMigration] legacyFile
          (legacyFile.migrated (fun _ => true) [legacyMigration] 6)) :=
  ⟨preflight_legacyFile, torn (by decide +kernel) (by decide +kernel)⟩

end Torn
end Atomic
end Mail
