import BridleModel.ProjectMap.System

open Except Plan

namespace ProjectMap

variable {db db' : Db} {index : Index} {paths : List String} {fileId : String → String}

namespace Db

-- An objection waits for its arbitration.
def Pending (db : Db) (o : ObjectionRow) : Prop :=
  o ∈ db.objections ∧ o.status = .pending

theorem pendingObjectionCount_eq_zero_iff : db.pendingObjectionCount = 0 ↔ ∀ o, ¬db.Pending o := by
  simp [pendingObjectionCount, Table.rowcount_eq_zero_iff, Pending]

theorem pendingObjectionCount_ne_zero_iff : db.pendingObjectionCount ≠ 0 ↔ ∃ o, db.Pending o := by
  simp [pendingObjectionCount_eq_zero_iff]

-- What the gate of the map looks at
def gate (db : Db) : ScanStatus × SemanticStatus × Table ObjectionRow fun row => [row.id] :=
  (db.scanStatus, db.semanticStatus, db.objections)

theorem gate_eq {scan : ScanStatus} {semantic : SemanticStatus} {objections : Table ObjectionRow fun row => [row.id]}
    (h : db.gate = (scan, semantic, objections)) :
    db.scanStatus = scan ∧ db.semanticStatus = semantic ∧ db.objections = objections := by
  simpa [gate] using h

theorem gate_objections (h : db'.gate = db.gate) : db'.objections = db.objections :=
  congrArg (·.2.2) h

theorem pending_congr {o : ObjectionRow} (h : db'.objections = db.objections) :
    db'.Pending o ↔ db.Pending o := by
  rw [Pending, Pending, h]

@[simp]
theorem recordChange_gate {entityType entityId operation : String} {payload : Json.Dict} :
    (db.recordChange entityType entityId operation payload).gate = db.gate :=
  rfl

@[simp]
theorem setMapStatus_gate {status : ScanStatus} {reason : String} :
    (db.setMapStatus status reason).gate = (status, db.semanticStatus, db.objections) :=
  rfl

theorem insertAnnotation_gate {row : AnnotationRow} (h : db.insertAnnotation row = .ok db') :
    db'.gate = db.gate := by
  unfold insertAnnotation at h
  split at h <;> cases h
  rfl

theorem insertReceipts_gate {messageIds : List String} (h : messageIds.foldlM insertReceipt db = .ok db') :
    db'.gate = db.gate := by
  refine foldlM_preserves (P := (·.gate = db.gate)) (fun hb hi => ?_) rfl h
  unfold insertReceipt at hi
  split at hi <;> cases hi
  exact hb

-- Only the code map and the blind spots differ.
def OnMap (db db' : Db) : Prop :=
  ∃ entities spots, db' = { db with entities, spots }

theorem OnMap.refl : db.OnMap db :=
  ⟨db.entities, db.spots, rfl⟩

theorem OnMap.trans {db₁ : Db} (h : db.OnMap db₁) (h' : db₁.OnMap db') : db.OnMap db' := by
  have ⟨_, _, he⟩ := h
  have ⟨e, s, he'⟩ := h'
  exact ⟨e, s, by rw [he', he]⟩

theorem OnMap.gate (h : db.OnMap db') : db'.gate = db.gate := by
  have ⟨_, _, he⟩ := h
  rw [he]
  rfl

theorem insertEntity_onMap {row : EntityRow} (h : db.insertEntity row = .ok db') : db.OnMap db' := by
  unfold insertEntity at h
  split at h <;> cases h
  exact ⟨_, db.spots, rfl⟩

theorem insertSpot_onMap {row : SpotRow} (h : db.insertSpot row = .ok db') : db.OnMap db' := by
  unfold insertSpot at h
  split at h <;> cases h
  exact ⟨db.entities, _, rfl⟩

theorem upsertEntity_onMap {row : EntityRow} (h : db.upsertEntity row = .ok db') : db.OnMap db' :=
  .trans ⟨_, db.spots, rfl⟩ (insertEntity_onMap h)

theorem upsertSpots_onMap {rows : List SpotRow} (h : db.upsertSpots paths rows = .ok db') : db.OnMap db' :=
  foldlM_preserves (P := db.OnMap) (fun hb hi => hb.trans (insertSpot_onMap hi)) ⟨db.entities, _, rfl⟩ h

theorem replaceMap_onMap (h : db.replaceMap index = .ok db') : db.OnMap db' := by
  have ⟨db₁, h₁, h₂⟩ := bind_eq_ok_iff.mp h
  have he : db.OnMap db₁ :=
    foldlM_preserves (P := db.OnMap) (fun hb hi => hb.trans (insertEntity_onMap hi)) ⟨_, db.spots, rfl⟩ h₁
  refine foldlM_preserves (P := db.OnMap) (fun hb hi => hb.trans (insertSpot_onMap hi)) ?_ h₂
  exact he.trans ⟨db₁.entities, _, rfl⟩

theorem purge_onMap : db.OnMap (paths.foldl purgePath db) := by
  induction paths generalizing db with
  | nil         => exact .refl
  | cons _ _ hi => exact .trans ⟨_, _, rfl⟩ hi

theorem reindex_onMap (h : db.reindex paths index = .ok db') : db.OnMap db' := by
  have ⟨indexed, h₁, h⟩ := bind_eq_ok_iff.mp h
  have ⟨rebuilt, h₂, h₃⟩ := bind_eq_ok_iff.mp h
  have hi : db.OnMap indexed := by
    split at h₁
    case isTrue  => cases h₁; exact purge_onMap
    case isFalse =>
      exact foldlM_preserves (P := db.OnMap) (fun hb hi => hb.trans (upsertEntity_onMap hi)) purge_onMap h₁
  have hr : db.OnMap rebuilt := by
    split at h₂
    case isTrue  => cases h₂; exact hi
    case isFalse => exact hi.trans (upsertSpots_onMap h₂)
  split at h₃
  case isTrue  => cases h₃; exact hr
  case isFalse => exact hr.trans (upsertSpots_onMap h₃)

theorem recordAnnotation_gate {row : AnnotationRow} {model : String}
    (h : db.recordAnnotation row model = .ok db') : db'.gate = db.gate := by
  have ⟨_, hi, h⟩ := bind_eq_ok_iff.mp h
  cases h
  rw [recordChange_gate, insertAnnotation_gate hi]

theorem insertObjection_ok {id : String} {annotationId : Option String}
    (h : db.insertObjection id annotationId = .ok db') :
    db'.scanStatus = db.scanStatus ∧ db'.semanticStatus = db.semanticStatus ∧
      db.objections.insert? ⟨id, annotationId, .pending⟩ = some db'.objections := by
  unfold insertObjection at h
  split at h
  case h_1      => cases h
  case h_2 objections hi =>
    cases h
    exact ⟨rfl, rfl, hi⟩

theorem insertObjection_pending {id : String} {annotationId : Option String}
    (h : db.insertObjection id annotationId = .ok db') : db'.Pending ⟨id, annotationId, .pending⟩ :=
  ⟨(Table.mem_insert? (insertObjection_ok h).2.2).mpr (.inr rfl), rfl⟩

theorem insertObjection_keeps {id : String} {annotationId : Option String} {o : ObjectionRow}
    (h : db.insertObjection id annotationId = .ok db') (ho : db.Pending o) : db'.Pending o :=
  ⟨(Table.mem_insert? (insertObjection_ok h).2.2).mpr (.inl ho.1), ho.2⟩

end Db

theorem createMapObjection_ok {objectionId objectionType : String} {annotationId : Option String}
    (h : createMapObjection objectionId objectionType annotationId db = .ok db') :
    db'.scanStatus = .needsArbitration ∧ ∃ o, db'.Pending o := by
  have ⟨_, hi, h⟩ := bind_eq_ok_iff.mp h
  have ho := Db.insertObjection_pending hi
  cases h
  exact ⟨rfl, _, ho⟩

theorem proposeSemanticAnnotation_ok {annotationId objectionId : String} {seedError : Option Error}
    {p : Proposal} (h : proposeSemanticAnnotation annotationId objectionId seedError p db = .ok db') :
    db'.gate = db.gate ∨ (db'.scanStatus = .needsArbitration ∧ ∃ o, db'.Pending o) := by
  have ⟨_, _, h⟩ := bind_eq_ok_iff.mp h
  have ⟨_, hr, h⟩ := bind_eq_ok_iff.mp h
  split at h
  case isTrue  =>
    cases h
    exact .inl (Db.recordAnnotation_gate hr)
  case isFalse => exact .inr (createMapObjection_ok h)

section Arbitration

variable {objectionId decision actor : String}

theorem Db.arbitrate_pending (h : ∃ o, db.Pending o) :
    db.arbitrate.gate = (.needsArbitration, db.semanticStatus, db.objections) := by
  rw [arbitrate, if_pos (pendingObjectionCount_ne_zero_iff.mpr h), setMapStatus_gate]

theorem Db.arbitrate_settled (h : ∀ o, ¬db.Pending o) :
    db.arbitrate.gate =
      (if db.semanticStatus = .completed then .ready else .semanticScanning, db.semanticStatus, db.objections) := by
  rw [arbitrate, if_neg (not_not_intro (pendingObjectionCount_eq_zero_iff.mpr h))]
  split <;> rfl

theorem resolvable_ok {row : ObjectionRow} (h : resolvable objectionId decision db = .ok row) :
    db.Pending row ∧ row.id = objectionId := by
  have ⟨_, ho, h⟩ := bind_eq_ok_iff.mp h
  have ⟨_, hp, h⟩ := bind_eq_ok_iff.mp h
  have ⟨_, _, h⟩ := bind_eq_ok_iff.mp h
  cases h
  unfold Db.objection at ho
  split at ho <;> cases ho
  case h_2 hl =>
    have hi := Table.lookup_key hl
    exact ⟨⟨Table.lookup_mem hl, not_not.mp (raiseIf_eq_ok_iff.mp hp)⟩, (List.mem_singleton.mp hi).symm⟩

theorem Db.closeObjection_pending_iff {o : ObjectionRow} :
    (db.closeObjection objectionId decision actor).Pending o ↔ db.Pending o ∧ o.id ≠ objectionId := by
  simp only [Pending, closeObjection, recordChange, Table.mem_modify]
  constructor
  · rintro ⟨⟨a, ha, he⟩, ho⟩
    split at he
    case isTrue  => simp [← he] at ho
    case isFalse hn => exact he ▸ ⟨⟨ha, he ▸ ho⟩, by simpa using hn⟩
  · rintro ⟨⟨hm, ho⟩, hn⟩
    exact ⟨⟨o, hm, if_neg (by simpa using hn)⟩, ho⟩

-- An objection that is resolved hands the status over to those that are left.
theorem resolveObjection_ok (h : resolveObjection objectionId decision actor db = .ok db') :
    ∃ row, resolvable objectionId decision db = .ok row ∧
      (∀ o, db'.Pending o ↔ db.Pending o ∧ o.id ≠ objectionId) ∧ db'.semanticStatus = db.semanticStatus ∧
      ((∃ o, db'.Pending o) → db'.scanStatus = .needsArbitration) ∧
      ((∀ o, ¬db'.Pending o) → db'.scanStatus =
        if db.semanticStatus = .completed then .ready else .semanticScanning) := by
  have ⟨row, hr, h⟩ := bind_eq_ok_iff.mp h
  refine ⟨row, hr, ?_⟩
  let closed := db.closeObjection objectionId decision actor
  let settled := row.annotation?.elim closed (closed.settleAnnotation decision)
  have hs : settled.gate = closed.gate := by
    cases ha : row.annotation? <;> simp only [settled, ha] <;> rfl
  have hp : ∀ o, settled.Pending o ↔ db.Pending o ∧ o.id ≠ objectionId := fun o =>
    (Db.pending_congr (Db.gate_objections hs)).trans Db.closeObjection_pending_iff
  have hsem : settled.semanticStatus = db.semanticStatus := congrArg (·.2.1) hs
  have he : db' = settled.arbitrate := by cases h; rfl
  cases he
  by_cases hw : ∃ o, settled.Pending o
  case pos =>
    have ⟨h₁, h₂, h₃⟩ := Db.gate_eq (Db.arbitrate_pending hw)
    have hq := fun o => (Db.pending_congr h₃).trans (hp o)
    refine ⟨hq, h₂.trans hsem, fun _ => h₁, fun hn => ?_⟩
    have ⟨o, ho⟩ := hw
    exact absurd ((Db.pending_congr h₃).mpr ho) (hn o)
  case neg =>
    have ⟨h₁, h₂, h₃⟩ := Db.gate_eq (Db.arbitrate_settled (not_exists.mp hw))
    have hq := fun o => (Db.pending_congr h₃).trans (hp o)
    refine ⟨hq, h₂.trans hsem, fun ⟨o, ho⟩ => ?_, fun _ => hsem ▸ h₁⟩
    exact absurd ⟨o, (Db.pending_congr h₃).mp ho⟩ hw

end Arbitration

section Semantic

variable {draw : String → String × String} {spot : SpotRow} {runId reason : String}

-- A round of the semantic scan reads the code map and adds objections.
structure Reviews (db db' : Db) : Prop where
  scan     : db'.scanStatus = db.scanStatus
  semantic : db'.semanticStatus = db.semanticStatus
  entities : db'.entities = db.entities
  pending  : db.Pending o → db'.Pending o

theorem Reviews.refl : Reviews db db :=
  ⟨rfl, rfl, rfl, id⟩

theorem Reviews.trans {db₁ : Db} (h : Reviews db db₁) (h' : Reviews db₁ db') : Reviews db db' :=
  ⟨h'.scan.trans h.scan, h'.semantic.trans h.semantic, h'.entities.trans h.entities, h'.pending ∘ h.pending⟩

theorem Db.spotSource_congr (h : db'.entities = db.entities) : db'.spotSource spot = db.spotSource spot := by
  simp only [spotSource, h]

theorem Db.routeSpot_reviews {sourceId a o : String} (h : db.routeSpot spot sourceId a o = .ok db') :
    Reviews db db' := by
  have ⟨db₁, ha, h⟩ := bind_eq_ok_iff.mp h
  have ⟨db₂, ho, h⟩ := bind_eq_ok_iff.mp h
  have ⟨h₁, h₂, _⟩ := insertObjection_ok ho
  have hk := fun o => insertObjection_keeps (o := o) ho
  have hg := insertAnnotation_gate ha
  have he : db₂.entities = db.entities := by
    unfold insertAnnotation at ha
    unfold insertObjection at ho
    split at ha <;> cases ha
    split at ho <;> cases ho
    rfl
  cases h
  exact ⟨h₁.trans (congrArg (·.1) hg), h₂.trans (congrArg (·.2.1) hg), he,
    fun hp => hk _ ((pending_congr (gate_objections hg)).mpr hp)⟩

theorem Db.reviewSpot_ok (h : db.reviewSpot draw spot = .ok db') :
    Reviews db db' ∧ (db.spotSource spot = none → db'.objections = db.objections) := by
  unfold reviewSpot at h
  split at h
  case h_1 =>
    cases h
    exact ⟨⟨rfl, rfl, rfl, id⟩, fun _ => rfl⟩
  case h_2 hs => exact ⟨routeSpot_reviews h, fun hn => nomatch hs.symm.trans hn⟩

theorem Db.reviewSpots_ok {spots : List SpotRow} (h : spots.foldlM (Db.reviewSpot draw) db = .ok db') :
    Reviews db db' ∧ ((∀ spot ∈ spots, db.spotSource spot = none) → db'.objections = db.objections) := by
  induction spots generalizing db with
  | nil             =>
    cases h
    exact ⟨.refl, fun _ => rfl⟩
  | cons hd tl hi =>
    have ⟨_, h₁, h₂⟩ := bind_eq_ok_iff.mp h
    have ⟨hr, hn⟩ := reviewSpot_ok h₁
    have ⟨hr', hn'⟩ := hi h₂
    refine ⟨hr.trans hr', fun hs => (hn' fun spot hm => ?_).trans (hn (hs hd List.mem_cons_self))⟩
    exact (spotSource_congr hr.entities).trans (hs spot (List.mem_cons_of_mem _ hm))

theorem runSemanticBatch_ok {remaining : Nat} (h : runSemanticBatch draw db = .ok (db', remaining)) :
    Reviews db db' ∧ ((∀ spot ∈ db.nextSpots, db.spotSource spot = none) → db'.objections = db.objections) := by
  have ⟨_, hf, h⟩ := bind_eq_ok_iff.mp h
  have hr := Db.reviewSpots_ok hf
  cases h
  exact hr

-- What the transactions of a semantic scan do to the gate, apart from its batches
inductive Scans (db db' : Db) : Prop
  | keep (scan : db'.scanStatus = db.scanStatus) (objections : db'.objections = db.objections)
      (semantic : db.semanticStatus = .completed → db'.semanticStatus = .completed)
  | scanning (before : db.scanStatus = .structureReady ∨ db.scanStatus = .semanticScanning)
      (after : db'.scanStatus = .semanticScanning)
  | arbitration (after : db'.scanStatus = .needsArbitration) (pending : db'.Pending o)
  | ready (before : db.scanStatus = .semanticScanning) (after : db'.scanStatus = .ready)
      (semantic : db'.semanticStatus = .completed) (settled : ∀ o, ¬db'.Pending o)

theorem Scans.of_gate {db₁ : Db} (hg : db₁.gate = db.gate) (h : Scans db₁ db') : Scans db db' := by
  have ⟨h₁, h₂, h₃⟩ := Db.gate_eq hg
  cases h with
  | keep scan objections semantic      => exact .keep (scan.trans h₁) (objections.trans h₃) (h₂ ▸ semantic)
  | scanning before after              => exact .scanning (h₁ ▸ before) after
  | arbitration after pending          => exact .arbitration after pending
  | ready before after semantic settled => exact .ready (h₁ ▸ before) after semantic settled

theorem claimRun_scans {db' : Db × String} (h : claimRun db = some db') : Scans db db'.fst := by
  unfold claimRun at h
  split at h
  case isFalse => cases h
  case isTrue hc =>
    have hn : db.semanticStatus ≠ .completed := by
      intro he
      simp [he] at hc
    have : db'.fst.scanStatus = db.scanStatus ∧ db'.fst.objections = db.objections := by
      dsimp only at h
      split at h
      case isTrue => cases h; exact ⟨rfl, rfl⟩
      case isFalse =>
        split at h <;> cases h <;> exact ⟨rfl, rfl⟩
    exact .keep this.1 this.2 fun he => absurd he hn

theorem startRun_scans : Scans db (startRun db).fst := by
  unfold startRun
  split
  case isTrue hc => exact .scanning hc rfl
  case isFalse   =>
    split
    case isTrue hr => exact .keep rfl rfl fun he => nomatch hr.symm.trans he
    case isFalse   => exact .keep rfl rfl id

theorem commitTerminal_scans {semanticStatus : SemanticStatus} {mapStatus : ScanStatus} {fallback : Db}
    (committed : ∀ db', db.scanStatus = .semanticScanning →
      db'.gate = (mapStatus, semanticStatus, db.objections) → Scans db db')
    (kept : Scans db fallback) :
    Scans db ((commitTerminal runId semanticStatus mapStatus reason db).getD fallback) := by
  unfold commitTerminal
  split
  case isTrue hc => exact committed _ hc.2.2 rfl
  case isFalse   => exact kept

theorem releaseRun_scans : Scans db (releaseRun runId db) := by
  unfold releaseRun
  split
  case isTrue hc => exact .keep rfl rfl fun he => nomatch hc.1.symm.trans he
  case isFalse   => exact .keep rfl rfl id

theorem markSemanticScanCompleted_scans : Scans db (markSemanticScanCompleted runId db) := by
  unfold markSemanticScanCompleted
  dsimp only
  split
  case isTrue  => exact releaseRun_scans
  case isFalse =>
    refine commitTerminal_scans (fun db' hs hg => ?_) releaseRun_scans
    have ⟨h₁, h₂, h₃⟩ := Db.gate_eq hg
    by_cases hp : ∃ o, db.Pending o
    case pos =>
      have ⟨o, ho⟩ := hp
      rw [if_pos (Db.pendingObjectionCount_ne_zero_iff.mpr hp)] at h₁
      exact .arbitration h₁ ((Db.pending_congr h₃).mpr ho)
    case neg =>
      rw [if_neg (mt Db.pendingObjectionCount_ne_zero_iff.mp hp)] at h₁
      exact .ready hs h₁ h₂ fun o ho => hp ⟨o, (Db.pending_congr h₃).mp ho⟩

theorem failRun_scans : Scans db (failRun runId reason db) := by
  unfold failRun
  dsimp only
  split
  case isTrue  => exact .keep rfl rfl id
  case isFalse =>
    refine @Scans.of_gate _ _ ({ db with remaining := db.openSpotCount }) rfl ?_
    refine commitTerminal_scans (fun db' hs hg => ?_) releaseRun_scans
    exact .scanning (.inr hs) (Db.gate_eq hg).1

theorem deferRun_scans : Scans db (deferRun runId db) := by
  unfold deferRun
  split
  case isTrue  => exact .keep rfl rfl id
  case isFalse =>
    refine commitTerminal_scans (fun db' hs hg => ?_) (.keep rfl rfl id)
    exact .scanning (.inr hs) (Db.gate_eq hg).1

end Semantic

section Refresh

namespace Db

def live (row : AnnotationRow) : Prop :=
  row.status = .active ∨ row.status = .pending

-- An annotation can still be made stale, or no objection waits for it.
def Reconcilable (db : Db) (a : String) : Prop :=
  (∃ row ∈ db.annotations, row.id = a ∧ live row) ∨ ∀ o, db.Pending o → o.annotationId ≠ some a

-- The queue shrinks by the objections about `a`.
structure Stales (db db' : Db) (a : String) : Prop where
  scan         : db'.scanStatus = db.scanStatus
  semantic     : db'.semanticStatus = db.semanticStatus
  changed      : db'.sourceChanged = db.sourceChanged
  pending      : db'.Pending o ↔ db.Pending o ∧ o.annotationId ≠ some a
  reconcilable : db.Reconcilable b → db'.Reconcilable b

theorem setAnnotationStale_stales {a : String} (ha : db.Reconcilable a) : db.Stales (db.setAnnotationStale a) a := by
  unfold setAnnotationStale
  dsimp only
  split
  case isTrue hc =>
    have hn : ∀ o, db.Pending o → o.annotationId ≠ some a := by
      cases ha with
      | inr hn => exact hn
      | inl hl =>
        obtain ⟨row, hm, hi, hl⟩ := hl
        have := Table.rowcount_eq_zero_iff.mp hc row hm
        simp [hi] at this
        exact absurd hl (by simpa [live] using this)
    exact ⟨rfl, rfl, rfl, ⟨fun h => ⟨h, hn _ h⟩, (·.1)⟩, id⟩
  case isFalse =>
    have hp : ∀ o, o ∈ db.objections.modify
        (fun row => row.annotationId = some a ∧ row.status = ObjectionStatus.pending)
        ({ · with status := .resolved }) (Table.keep fun _ => rfl) ∧ o.status = .pending ↔
        db.Pending o ∧ o.annotationId ≠ some a := by
      intro o
      rw [Table.mem_modify, Pending]
      constructor
      · rintro ⟨⟨b, hb, he⟩, ho⟩
        split at he
        case isTrue     => simp [← he] at ho
        case isFalse hn =>
          cases he
          exact ⟨⟨hb, ho⟩, by simpa [ho] using hn⟩
      · rintro ⟨⟨hm, ho⟩, hn⟩
        exact ⟨⟨o, hm, by simp [hn]⟩, ho⟩
    refine ⟨rfl, rfl, rfl, hp _, fun {b} hb => ?_⟩
    by_cases hab : a = b
    case pos => exact .inr fun o ho => hab ▸ ((hp o).mp ho).2
    case neg =>
      cases hb with
      | inr hn => exact .inr fun o ho => hn o ((hp o).mp ho).1
      | inl hl =>
        obtain ⟨row, hm, hi, hl⟩ := hl
        exact .inl ⟨row, List.mem_map.mpr ⟨row, hm, by simp [hi, Ne.symm hab]⟩, hi, hl⟩

theorem recordRefreshes_gate :
    (paths.foldl (fun db rel => db.recordChange "code_entity" (fileId rel) "refresh" [("path", .str rel)])
      db).gate = db.gate := by
  induction paths generalizing db with
  | nil         => rfl
  | cons _ _ hi => exact hi

theorem reconcileAnnotation_ok {snap : AnnotationRow} (hr : db.Reconcilable snap.id) :
    (db.reconcileAnnotation snap).scanStatus = db.scanStatus ∧
      (db.reconcileAnnotation snap).semanticStatus = db.semanticStatus ∧
      (db.reconcileAnnotation snap).sourceChanged = db.sourceChanged ∧
      (∀ o, (db.reconcileAnnotation snap).Pending o ↔
        db.Pending o ∧ (o.annotationId = some snap.id → db.sourceChanged snap = false)) ∧
      ∀ b, db.Reconcilable b → (db.reconcileAnnotation snap).Reconcilable b := by
  unfold reconcileAnnotation
  split
  case isTrue hc =>
    have h := setAnnotationStale_stales hr
    exact ⟨h.scan, h.semantic, h.changed, fun o => by simp [h.pending, hc], fun _ => h.reconcilable⟩
  case isFalse hc =>
    exact ⟨rfl, rfl, rfl, fun o => by simp [hc], fun _ => id⟩

-- The objections that are left are those about no annotation whose source has changed.
theorem reconcileAnnotations_ok {snaps : List AnnotationRow} (hr : ∀ snap ∈ snaps, db.Reconcilable snap.id) :
    (snaps.foldl reconcileAnnotation db).scanStatus = db.scanStatus ∧
      (snaps.foldl reconcileAnnotation db).semanticStatus = db.semanticStatus ∧
      ∀ o, (snaps.foldl reconcileAnnotation db).Pending o ↔
        db.Pending o ∧ ∀ snap ∈ snaps, o.annotationId = some snap.id → db.sourceChanged snap = false := by
  induction snaps generalizing db with
  | nil             => exact ⟨rfl, rfl, fun o => by simp⟩
  | cons hd tl hi =>
    have ⟨h₁, h₂, h₃, h₄, h₅⟩ := reconcileAnnotation_ok (hr hd List.mem_cons_self)
    have ⟨h₁', h₂', h₃'⟩ := hi fun snap hm => h₅ _ (hr snap (List.mem_cons_of_mem _ hm))
    refine ⟨h₁'.trans h₁, h₂'.trans h₂, fun o => ?_⟩
    rw [List.foldl_cons, h₃' o, h₄ o, h₃, List.forall_mem_cons, and_assoc]

end Db

theorem mem_annotationSnapshots {snap : AnnotationRow} (h : snap ∈ db.annotationSnapshots paths) :
    snap ∈ db.annotations ∧ Db.live snap := by
  have ⟨_, _, h⟩ := List.mem_flatMap.mp h
  have ⟨hm, h⟩ := List.mem_filter.mp h
  simp only [decide_eq_true_eq] at h
  exact ⟨hm, h.1⟩

theorem refreshCodePaths_ok (h : refreshCodePaths fileId paths index db = .ok db') :
    ∃ indexed, db.reindex paths index = .ok indexed ∧ db'.scanStatus = db.scanStatus ∧
      db'.semanticStatus = db.semanticStatus ∧
      ∀ o, db'.Pending o ↔ db.Pending o ∧ ∀ snap ∈ db.annotationSnapshots paths,
        o.annotationId = some snap.id → indexed.sourceChanged snap = false := by
  have ⟨indexed, hi, h⟩ := bind_eq_ok_iff.mp h
  have hgi := (Db.reindex_onMap hi).gate
  have ⟨entities, spots, he⟩ := Db.reindex_onMap hi
  have hr : ∀ snap ∈ db.annotationSnapshots paths, indexed.Reconcilable snap.id := by
    intro snap hs
    have ⟨hm, hl⟩ := mem_annotationSnapshots hs
    exact .inl ⟨snap, he ▸ hm, rfl, hl⟩
  have ⟨h₁, h₂, h₃⟩ := Db.reconcileAnnotations_ok hr
  have hg := @Db.recordRefreshes_gate ((db.annotationSnapshots paths).foldl Db.reconcileAnnotation indexed) paths fileId
  cases h
  refine ⟨indexed, hi, ?_, ?_, fun o => ?_⟩
  case refine_1 => exact (congrArg (·.1) hg).trans <| h₁.trans (congrArg (·.1) hgi)
  case refine_2 => exact (congrArg (·.2.1) hg).trans <| h₂.trans (congrArg (·.2.1) hgi)
  case refine_3 =>
    rw [Db.pending_congr (Db.gate_objections hg), h₃ o, Db.pending_congr (Db.gate_objections hgi)]

end Refresh

section Step

-- Everything that a step can do to the gate
inductive Effect (fileId : String → String) (db : Db) : Label → Db → Prop
  | rescan {index : Index} {db' : Db} (after : db'.scanStatus = .structureReady) :
      Effect fileId db (.environment (.rescan index)) db'
  | rescanFailed {db' : Db} (after : db'.scanStatus = .failed) :
      Effect fileId db (.environment (.rescanFailed reason)) db'
  | scan {db' : Db} (other : rescan? l = none) (scans : Scans db db') : Effect fileId db l db'
  | resolve {db' : Db} (resolved : resolveObjection objectionId decision actor db = .ok db') :
      Effect fileId db (.environment (.resolve objectionId decision actor)) db'
  | refresh {paths : List String} {index : Index} {db' : Db}
      (refreshes : call.refreshes db = some (paths, index))
      (refreshed : refreshCodePaths fileId paths index db = .ok db₁) (gate : db'.gate = db₁.gate) :
      Effect fileId db (.environment call) db'
  | batch {db' : Db} (batch : runSemanticBatch draw db = .ok (db', remaining)) :
      Effect fileId db (.process p (.batch draw)) db'

variable {l : Label} {c c' : Processes.Configuration Db Position}

theorem rescan?_of_refreshes {call : Call} (h : call.refreshes db = some (paths, index)) :
    rescan? (.environment call) = none := by
  cases call with
  | rescan | rescanFailed => simp [Call.refreshes] at h
  | _                     => rfl

theorem Scans.of_gate_eq (h : db'.gate = db.gate) : Scans db db' := by
  have ⟨h₁, h₂, h₃⟩ := Db.gate_eq h
  exact .keep h₁ h₃ h₂.trans

theorem Scans.refl : Scans db db :=
  .of_gate_eq rfl

theorem call_effect {call : Call} (h : db.call fileId call = some db') :
    Effect fileId db (.environment call) db' := by
  cases call <;> simp only [Db.call] at h
  case rescan index =>
    obtain ⟨replaced, hr, h⟩ := bind_eq_ok_iff.mp (toOption_eq_some_iff.mp h)
    cases h
    exact .rescan rfl
  case rescanFailed =>
    cases h
    exact .rescanFailed rfl
  case propose a o seedError p =>
    cases h
    refine .scan rfl ?_
    cases hp : proposeSemanticAnnotation a o seedError p db with
    | error => exact .refl
    | ok    =>
      cases proposeSemanticAnnotation_ok hp with
      | inl hg => exact .of_gate_eq hg
      | inr ha => exact .arbitration ha.1 ha.2.choose_spec
  case createObjection o type a =>
    cases h
    refine .scan rfl ?_
    cases ho : createMapObjection o type a db with
    | error => exact .refl
    | ok    => exact .arbitration (createMapObjection_ok ho).1 (createMapObjection_ok ho).2.choose_spec
  case resolve objectionId decision actor =>
    cases h
    cases hr : resolveObjection objectionId decision actor db with
    | error => exact .scan rfl .refl
    | ok    => exact .resolve hr
  case refresh paths index =>
    cases h
    cases hr : refreshPaths fileId paths index db with
    | error => exact .scan rfl .refl
    | ok    =>
      obtain ⟨normalized, hn, hr⟩ := bind_eq_ok_iff.mp hr
      exact .refresh (by simp [Call.refreshes, hn, Except.toOption]) hr rfl
  case applyBatch messages index =>
    cases h
    cases hb : applyCodeChangedBatch fileId messages index db with
    | error => exact .scan rfl .refl
    | ok    =>
      obtain ⟨normalized, hn, hb⟩ := bind_eq_ok_iff.mp hb
      obtain ⟨refreshed, hr, hb⟩ := bind_eq_ok_iff.mp hb
      obtain ⟨received, hi, hb⟩ := bind_eq_ok_iff.mp hb
      cases hb
      have hg := Db.insertReceipts_gate hi
      split at hr
      case isTrue =>
        cases hr
        exact .scan rfl (.of_gate_eq hg)
      case isFalse => exact .refresh (by simp [Call.refreshes, hn, Except.toOption]) hr hg
  case write =>
    cases h
    exact .scan rfl (.of_gate_eq rfl)

theorem advance_effect {p : Position} {i : Input} {next : Db × Position} {k : Nat}
    (h : advance db p i = some next) : Effect fileId db (.process k i) next.fst := by
  unfold advance at h
  split at h
  case h_3 =>
    split at h <;> cases h
    case h_1    => exact .scan rfl .refl
    case h_2 hc => exact .scan rfl (claimRun_scans hc)
  case h_4 =>
    have hs := @startRun_scans db
    split at h <;> cases h
    case h_1 he => exact .scan rfl (congrArg Prod.fst he ▸ hs)
    case h_2 he => exact .scan rfl (congrArg Prod.fst he ▸ hs)
  case h_5 =>
    split at h <;> cases h
    case h_2 hb => exact .batch hb
  case h_7 =>
    split at h <;> cases h
    case h_2 hb => exact .batch hb
  case h_10 => cases h; exact .scan rfl deferRun_scans
  case h_11 => cases h; exact .scan rfl markSemanticScanCompleted_scans
  case h_13 => cases h; exact .scan rfl failRun_scans
  -- The other steps only read, or write what the gate does not look at.
  all_goals cases h
  all_goals exact .scan rfl (.of_gate_eq rfl)

theorem step_effect (h : (stores fileId).step c l = some c') : Effect fileId c.store l c'.store := by
  cases l with
  | environment call =>
    have ⟨_, hc, h⟩ := Option.map_eq_some_iff.mp h
    cases h
    exact call_effect hc
  | process k i      =>
    have ⟨_, ha, h⟩ := Option.map_eq_some_iff.mp h
    cases h
    exact advance_effect ha

end Step
end ProjectMap
