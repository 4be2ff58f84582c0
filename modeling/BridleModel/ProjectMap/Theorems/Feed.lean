import BridleModel.CodeMap.Theorems.Feed
import BridleModel.ProjectMap.Theorems.Effect

open CodeMap Except Plan

namespace ProjectMap

variable {db db' : Db} {index : Index} {paths : List String} {fileId : String → String}

-- What the readers of the change events see of the database
def Db.feed (db : Db) : Feed EntityRow where
  entities := db.entities
  changes  := db.changes

namespace Db

section Records

-- The entities are as they were, and only other events than refreshes have come.
structure Records (db db' : Db) : Prop where
  project  : db'.projectId = db.projectId
  entities : db'.entities = db.entities
  events   : ∃ events : List OtherEvent, db'.changes = db.changes ++ events.map (·.val)

theorem Records.same (project : db'.projectId = db.projectId) (feed : db'.feed = db.feed) : db.Records db' where
  project  := project
  entities := congrArg Feed.entities feed
  events   := ⟨[], by rw [List.map_nil, List.append_nil]; exact congrArg Feed.changes feed⟩

theorem Records.refl : db.Records db :=
  .same rfl rfl

theorem Records.trans {db₁ : Db} (h : db.Records db₁) (h' : db₁.Records db') : db.Records db' where
  project  := h'.project.trans h.project
  entities := h'.entities.trans h.entities
  events   := by
    have ⟨events, he⟩ := h.events
    have ⟨events', he'⟩ := h'.events
    exact ⟨events ++ events', by rw [he', he, List.map_append, List.append_assoc]⟩

theorem Records.feed (h : db.Records db') :
    ∃ events : List OtherEvent, db'.feed = db.feed.record (events.map (·.val)) := by
  have ⟨events, he⟩ := h.events
  exact ⟨events, by rw [Db.feed, h.entities, he]; rfl⟩

theorem Records.recordChange {db₁ : Db} {entityType entityId operation : String} {payload : Json.Dict}
    (h : db.Records db₁) (hn : entityType ≠ "code_entity") :
    db.Records (db₁.recordChange entityType entityId operation payload) where
  project  := h.project
  entities := h.entities
  events   := by
    have ⟨events, he⟩ := h.events
    refine ⟨events ++ [⟨⟨entityType, entityId, operation, payload⟩, by simp [isRefresh, hn]⟩], ?_⟩
    rw [Db.recordChange, he, List.map_append, List.append_assoc]
    rfl

theorem Records.setMapStatus {db₁ : Db} {status : ScanStatus} {reason : String} (h : db.Records db₁) :
    db.Records (db₁.setMapStatus status reason) :=
  .recordChange (h.trans (.same rfl rfl)) (by decide)

theorem insertAnnotation_records {row : AnnotationRow} (h : db.insertAnnotation row = .ok db') : db.Records db' := by
  unfold insertAnnotation at h
  split at h <;> cases h
  exact .same rfl rfl

theorem insertObjection_records {id : String} {annotationId : Option String}
    (h : db.insertObjection id annotationId = .ok db') : db.Records db' := by
  unfold insertObjection at h
  split at h <;> cases h
  exact .same rfl rfl

theorem recordAnnotation_records {row : AnnotationRow} {model : String} (h : db.recordAnnotation row model = .ok db') :
    db.Records db' := by
  have ⟨_, hi, h⟩ := bind_eq_ok_iff.mp h
  cases h
  exact (insertAnnotation_records hi).recordChange (by decide)

theorem settleAnnotation_records {decision annotationId : String} :
    db.Records (db.settleAnnotation decision annotationId) :=
  .recordChange (.same rfl rfl) (by decide)

theorem closeObjection_records {objectionId decision actor : String} :
    db.Records (db.closeObjection objectionId decision actor) :=
  .recordChange (.same rfl rfl) (by decide)

theorem arbitrate_records : db.Records db.arbitrate := by
  unfold arbitrate
  split
  case isTrue  => exact .setMapStatus .refl
  case isFalse => split <;> exact .setMapStatus .refl

theorem setAnnotationStale_records {annotationId : String} : db.Records (db.setAnnotationStale annotationId) := by
  unfold setAnnotationStale
  dsimp only
  split
  case isTrue  => exact .refl
  case isFalse => exact .recordChange (.same rfl rfl) (by decide)

theorem reconcileAnnotations_records {snaps : List AnnotationRow} :
    db.Records (snaps.foldl reconcileAnnotation db) := by
  induction snaps generalizing db with
  | nil           => exact .refl
  | cons snap _ hi =>
    refine .trans ?_ hi
    unfold reconcileAnnotation
    split
    case isTrue  => exact setAnnotationStale_records
    case isFalse => exact .refl

end Records
end Db

section Calls

open Db

theorem createMapObjection_records {objectionId objectionType : String} {annotationId : Option String}
    (h : createMapObjection objectionId objectionType annotationId db = .ok db') : db.Records db' := by
  have ⟨_, hi, h⟩ := bind_eq_ok_iff.mp h
  cases h
  exact ((insertObjection_records hi).recordChange (by decide)).setMapStatus

theorem proposeSemanticAnnotation_records {annotationId objectionId : String} {seedError : Option Error} {p : Proposal}
    (h : proposeSemanticAnnotation annotationId objectionId seedError p db = .ok db') : db.Records db' := by
  have ⟨_, _, h⟩ := bind_eq_ok_iff.mp h
  have ⟨_, hr, h⟩ := bind_eq_ok_iff.mp h
  split at h
  case isTrue  =>
    cases h
    exact recordAnnotation_records hr
  case isFalse => exact (recordAnnotation_records hr).trans (createMapObjection_records h)

theorem resolveObjection_records {objectionId decision actor : String}
    (h : resolveObjection objectionId decision actor db = .ok db') : db.Records db' := by
  have ⟨row, _, h⟩ := bind_eq_ok_iff.mp h
  cases h
  refine .trans ?_ arbitrate_records
  cases row.annotation? with
  | none   => exact closeObjection_records
  | some a => exact closeObjection_records.trans settleAnnotation_records

theorem runSemanticBatch_records {draw : String → String × String} {remaining : Nat}
    (h : runSemanticBatch draw db = .ok (db', remaining)) : db.Records db' := by
  have ⟨_, hf, h⟩ := bind_eq_ok_iff.mp h
  cases h
  refine foldlM_preserves (P := db.Records) (fun hb hi => hb.trans ?_) .refl hf
  unfold Db.reviewSpot at hi
  split at hi
  case h_1 =>
    cases hi
    exact .same rfl rfl
  case h_2 =>
    have ⟨_, ha, hi⟩ := bind_eq_ok_iff.mp hi
    have ⟨_, ho, hi⟩ := bind_eq_ok_iff.mp hi
    cases hi
    have hrow := (insertAnnotation_records ha).trans (insertObjection_records ho)
    refine .recordChange (.recordChange (hrow.trans (.same rfl rfl)) ?_) ?_ <;> decide

theorem releaseRun_records {runId : String} : db.Records (releaseRun runId db) := by
  unfold releaseRun
  split <;> exact .same rfl rfl

theorem commitTerminal_records {runId reason : String} {semanticStatus : SemanticStatus} {mapStatus : ScanStatus}
    {fallback : Db} (h : db.Records fallback) :
    db.Records ((commitTerminal runId semanticStatus mapStatus reason db).getD fallback) := by
  unfold commitTerminal
  split
  case isTrue  => exact .setMapStatus (.same rfl rfl)
  case isFalse => exact h

theorem markSemanticScanCompleted_records {runId : String} : db.Records (markSemanticScanCompleted runId db) := by
  unfold markSemanticScanCompleted
  dsimp only
  split
  case isTrue  => exact releaseRun_records
  case isFalse => exact commitTerminal_records releaseRun_records

theorem failRun_records {runId reason : String} : db.Records (failRun runId reason db) := by
  unfold failRun
  dsimp only
  split
  case isTrue  => exact .same rfl rfl
  case isFalse =>
    have hc : ∀ db₁ : Db, db₁.Records
        ((commitTerminal runId .failed .semanticScanning reason db₁).getD (releaseRun runId db₁)) :=
      fun _ => commitTerminal_records releaseRun_records
    refine .trans ?_ (hc _)
    exact .same rfl rfl

theorem deferRun_records {runId : String} : db.Records (deferRun runId db) := by
  unfold deferRun
  split
  case isTrue  => exact .refl
  case isFalse => exact commitTerminal_records .refl

theorem claimRun_records {db' : Db × String} (h : claimRun db = some db') : db.Records db'.fst := by
  unfold claimRun at h
  split at h
  case isFalse => cases h
  case isTrue  =>
    dsimp only at h
    split at h
    case isTrue  =>
      cases h
      exact .same rfl rfl
    case isFalse => split at h <;> cases h <;> exact .same rfl rfl

theorem startRun_records : db.Records (startRun db).fst := by
  unfold startRun
  split
  case isTrue  => exact .recordChange (.same rfl rfl) (by decide)
  case isFalse => split <;> exact .same rfl rfl

theorem advance_records {p : Position} {i : Input} {next : Db × Position} (h : advance db p i = some next) :
    db.Records next.fst := by
  unfold advance at h
  split at h
  case h_3 =>
    split at h <;> cases h
    case h_1    => exact .refl
    case h_2 hc => exact claimRun_records hc
  case h_4 =>
    have hs := @startRun_records db
    split at h <;> cases h
    case h_1 he => exact congrArg Prod.fst he ▸ hs
    case h_2 he => exact congrArg Prod.fst he ▸ hs
  case h_5 =>
    split at h <;> cases h
    case h_2 hb => exact runSemanticBatch_records hb
  case h_7 =>
    split at h <;> cases h
    case h_2 hb => exact runSemanticBatch_records hb
  case h_10 => cases h; exact deferRun_records
  case h_11 => cases h; exact markSemanticScanCompleted_records
  case h_13 => cases h; exact failRun_records
  -- The other steps only read, or write what the feed does not have.
  all_goals cases h
  all_goals exact .same rfl rfl

end Calls

section Map

open Db

-- A refresh of the feed is one of the paths that a call refreshes, with what is scanned for them.
def Refreshes (refreshes : Option (List String × Index)) : Transaction EntityRow → Prop
  | .refresh relPaths scanned _ => ∃ paths index, refreshes = some (paths, index) ∧
    normalizePaths relPaths = .ok paths ∧ ∀ row ∈ scanned, row ∈ index.entities
  | _                           => True

-- What is done is one transaction of the feed.
structure Commits (fileId : String → String) (refreshes : Option (List String × Index)) (db db' : Db) : Prop where
  project : db'.projectId = db.projectId
  commit  : ∃ t, db.feed.commit fileId db.projectId t = some db'.feed ∧ Refreshes refreshes t

theorem insertEntity_feed {row : EntityRow} (h : db.insertEntity row = .ok db') :
    db.feed.insertEntity row = some db'.feed := by
  unfold Db.insertEntity at h
  split at h
  case h_1             => cases h
  case h_2 entities hi =>
    cases h
    exact Option.map_eq_some_iff.mpr ⟨entities, hi, rfl⟩

theorem upsertEntity_feed {row : EntityRow} (h : db.upsertEntity row = .ok db') :
    db.feed.upsertEntity row = some db'.feed :=
  insertEntity_feed h

theorem foldlM_feed {f : Db → EntityRow → Except Error Db} {g : Feed EntityRow → EntityRow → Option (Feed EntityRow)}
    {rows : List EntityRow} (hf : ∀ {db db' row}, f db row = .ok db' → g db.feed row = some db'.feed)
    (h : rows.foldlM f db = .ok db') : rows.foldlM g db.feed = some db'.feed := by
  induction rows generalizing db with
  | nil          =>
    cases h
    rfl
  | cons row _ hi =>
    have ⟨_, hr, h⟩ := bind_eq_ok_iff.mp h
    exact Option.bind_eq_some_iff.mpr ⟨_, hf hr, hi h⟩

theorem insertSpots_feed {rows : List SpotRow} (h : rows.foldlM insertSpot db = .ok db') : db'.feed = db.feed := by
  refine foldlM_preserves (P := (·.feed = db.feed)) (fun hb hi => ?_) rfl h
  unfold insertSpot at hi
  split at hi <;> cases hi
  exact hb

theorem insertReceipts_feed {messageIds : List String} (h : messageIds.foldlM Db.insertReceipt db = .ok db') :
    db'.projectId = db.projectId ∧ db'.feed = db.feed := by
  refine foldlM_preserves (P := fun db₁ => db₁.projectId = db.projectId ∧ db₁.feed = db.feed) (fun hb hi => ?_)
    ⟨rfl, rfl⟩ h
  unfold Db.insertReceipt at hi
  split at hi <;> cases hi
  exact hb

theorem upsertSpots_feed {rows : List SpotRow} (h : db.upsertSpots paths rows = .ok db') : db'.feed = db.feed := by
  have hf := insertSpots_feed (show rows.foldlM insertSpot { db with spots := _ } = .ok db' from h)
  exact hf

theorem purgePaths_feed : (paths.foldl Db.purgePath db).feed = paths.foldl Feed.purgePath db.feed := by
  induction paths generalizing db with
  | nil         => rfl
  | cons _ _ hi => exact hi

theorem projectId_of_onMap (h : db.OnMap db') : db'.projectId = db.projectId := by
  have ⟨_, _, he⟩ := h
  rw [he]

theorem reindex_feed (h : db.reindex paths index = .ok db') : ∃ scanned : List EntityRow,
    scanned.foldlM Feed.upsertEntity (paths.foldl Feed.purgePath db.feed) = some db'.feed ∧
      ∀ row ∈ scanned, row ∈ index.entities := by
  have ⟨indexed, h₁, h⟩ := bind_eq_ok_iff.mp h
  have ⟨rebuilt, h₂, h₃⟩ := bind_eq_ok_iff.mp h
  have hspots : db'.feed = indexed.feed := by
    have hr : rebuilt.feed = indexed.feed := by
      split at h₂
      case isTrue  => cases h₂; rfl
      case isFalse => exact upsertSpots_feed h₂
    refine Eq.trans ?_ hr
    split at h₃
    case isTrue  => cases h₃; rfl
    case isFalse => exact upsertSpots_feed h₃
  rw [hspots, ← purgePaths_feed]
  split at h₁
  case isTrue  =>
    cases h₁
    exact ⟨[], rfl, List.forall_mem_nil _⟩
  case isFalse => exact ⟨index.entities, foldlM_feed upsertEntity_feed h₁, fun _ => id⟩

theorem recordRefreshes_feed :
    (paths.foldl (fun db rel => db.recordChange "code_entity" (fileId rel) "refresh" [("path", .str rel)]) db).feed =
      db.feed.record (paths.map (refreshEvent fileId)) ∧
    (paths.foldl (fun db rel => db.recordChange "code_entity" (fileId rel) "refresh" [("path", .str rel)])
      db).projectId = db.projectId := by
  induction paths generalizing db with
  | nil           => simp [Feed.record, Db.feed]
  | cons rel _ hi =>
    have h := @hi (db.recordChange "code_entity" (fileId rel) "refresh" [("path", .str rel)])
    refine ⟨h.left.trans ?_, h.right⟩
    simp [Feed.record, Db.feed, Db.recordChange, refreshEvent]

theorem refreshCodePaths_commits {relPaths : List String} (hn : normalizePaths relPaths = .ok paths)
    (h : refreshCodePaths fileId paths index db = .ok db') : Commits fileId (some (paths, index)) db db' := by
  obtain ⟨indexed, hi, h⟩ := bind_eq_ok_iff.mp h
  obtain ⟨scanned, hs, hm⟩ := reindex_feed hi
  have hr := @reconcileAnnotations_records indexed (db.annotationSnapshots paths)
  obtain ⟨events, he⟩ := hr.feed
  cases h
  obtain ⟨hf, hp⟩ :=
    @recordRefreshes_feed ((db.annotationSnapshots paths).foldl Db.reconcileAnnotation indexed) paths fileId
  have hp := hp.trans (hr.project.trans (projectId_of_onMap (Db.reindex_onMap hi)))
  refine ⟨hp, .refresh relPaths scanned events, ?_, paths, index, rfl, hn, hm⟩
  rw [hf, he]
  exact Option.bind_eq_some_iff.mpr ⟨paths, toOption_eq_some_iff.mpr hn, Option.bind_eq_some_iff.mpr ⟨_, hs, rfl⟩⟩

theorem rescan_commits (h : rescan index db = .ok db') : Commits fileId none db db' := by
  have ⟨replaced, hr, h⟩ := bind_eq_ok_iff.mp h
  have ⟨stored, hs, ht⟩ := bind_eq_ok_iff.mp hr
  have hp : replaced.projectId = db.projectId := by
    have hp := projectId_of_onMap (Db.replaceMap_onMap hr)
    exact hp
  have hspots : replaced.feed = stored.feed := by
    have hf := insertSpots_feed ht
    exact hf
  have hf := foldlM_feed insertEntity_feed hs
  cases h
  refine ⟨hp, .rescan index.entities [], ?_, trivial⟩
  refine Option.bind_eq_some_iff.mpr ⟨stored.feed, hf, ?_⟩
  rw [← hspots, ← hp]
  simp [Feed.record, Db.feed, Db.setMapStatus, Db.recordChange, statusEvent, ScanStatus.value]

end Map

section Step

variable {c c' : Processes.Configuration Db Position} {l : Label} {refreshes : Option (List String × Index)}

theorem Db.Records.commits (h : db.Records db') : Commits fileId refreshes db db' where
  project := h.project
  commit  := by
    have ⟨events, he⟩ := h.feed
    exact ⟨.record events, he ▸ rfl, trivial⟩

theorem Commits.orElseKeep {x : Except Error Db} (h : ∀ {db'}, x = .ok db' → Commits fileId refreshes db db') :
    Commits fileId refreshes db (x.orElseKeep db) := by
  cases x with
  | error => exact Db.Records.refl.commits
  | ok    => exact h rfl

theorem applyCodeChangedBatch_commits {messages : List (String × List String)} {relPaths : List String}
    (h : applyCodeChangedBatch fileId messages index db = .ok (db', relPaths)) :
    Commits fileId ((changedPaths messages db).toOption.map (·, index)) db db' := by
  have ⟨normalized, hn, h⟩ := bind_eq_ok_iff.mp h
  have ⟨refreshed, hr, h⟩ := bind_eq_ok_iff.mp h
  have ⟨received, hi, h⟩ := bind_eq_ok_iff.mp h
  have ⟨hp, hf⟩ := insertReceipts_feed hi
  rw [hn]
  have ⟨_, _, hn⟩ := bind_eq_ok_iff.mp hn
  cases h
  split at hr
  case isTrue  =>
    cases hr
    exact (Db.Records.same hp hf).commits
  case isFalse =>
    have hc := refreshCodePaths_commits hn hr
    exact ⟨hp.trans hc.project, hf ▸ hc.commit⟩

theorem call_commits {call : Call} (h : db.call fileId call = some db') :
    Commits fileId (call.refreshes db) db db' := by
  cases call with
  | rescan index                => exact rescan_commits (toOption_eq_some_iff.mp h)
  | rescanFailed reason         =>
    cases h
    exact (Db.Records.setMapStatus .refl).commits
  | propose a o seedError p     =>
    cases h
    exact .orElseKeep fun h => (proposeSemanticAnnotation_records h).commits
  | createObjection o type a    =>
    cases h
    exact .orElseKeep fun h => (createMapObjection_records h).commits
  | resolve o decision actor    =>
    cases h
    exact .orElseKeep fun h => (resolveObjection_records h).commits
  | refresh paths index         =>
    cases h
    refine .orElseKeep fun h => ?_
    obtain ⟨normalized, hn, hr⟩ := bind_eq_ok_iff.mp h
    rw [Call.refreshes, hn]
    exact refreshCodePaths_commits hn hr
  | applyBatch messages index   =>
    cases h
    refine .orElseKeep fun h => ?_
    obtain ⟨⟨received, relPaths⟩, hb, he⟩ := map_eq_ok_iff.mp h
    cases he
    exact applyCodeChangedBatch_commits hb
  | write path hash             =>
    cases h
    have hs : db.Records { db with fileHash := Function.update db.fileHash path hash } := .same rfl rfl
    exact hs.commits

-- The paths that a step refreshes
def refreshes? (db : Db) : Label → Option (List String × Index)
  | .environment call => call.refreshes db
  | .process _ _      => none

theorem step_commits (h : (stores fileId).step c l = some c') :
    Commits fileId (refreshes? c.store l) c.store c'.store := by
  cases l with
  | environment call =>
    obtain ⟨_, hc, h⟩ := Option.map_eq_some_iff.mp h
    cases h
    exact call_commits hc
  | process k i      =>
    obtain ⟨_, ha, h⟩ := Option.map_eq_some_iff.mp h
    cases h
    exact (advance_records ha).commits

theorem reachable_feed (r : (stores fileId).system.Reachable c) : c.store.feed.Reachable fileId c.store.projectId := by
  refine r.invariant (I := fun c => c.store.feed.Reachable fileId c.store.projectId) (fun hi => ?_) fun _ hr hs => ?_
  case refine_1 =>
    obtain ⟨⟨projectId, fileHash, he⟩, _⟩ := hi
    rw [he]
    exact .refl
  case refine_2 =>
    have hc := step_commits hs
    obtain ⟨t, ht, _⟩ := hc.commit
    rw [hc.project]
    exact hr.tail ⟨t, ht⟩

theorem feed_refined (r : (stores fileId).system.Reachable c) (h : (stores fileId).system.step c l = some c') :
    c.store.feed.Reachable fileId c.store.projectId ∧ c'.store.projectId = c.store.projectId ∧
      ∃ t, c.store.feed.commit fileId c.store.projectId t = some c'.store.feed ∧
        Refreshes (refreshes? c.store l) t := by
  have hc := step_commits h
  exact ⟨reachable_feed r, hc.project, hc.commit⟩

def workspaceSample : Db :=
  .empty "p" fun path => if path = "a" then "h" else ""

def indexedSample : Db :=
  { workspaceSample with
    entities := ⟨[⟨"f", "a"⟩], List.pairwise_singleton ..⟩
    changes  := [refreshEvent id "a"]
  }

theorem feed_refined_sample : ∃ t, Feed.empty.commit id "p" t = some indexedSample.feed ∧
    Refreshes (some (["a"], ⟨[⟨"f", "a"⟩], [], [], []⟩)) t := by
  have hinit : (stores id).system.Reachable ⟨workspaceSample, fun _ => .idle⟩ :=
    .init ⟨⟨"p", _, rfl⟩, fun _ => rfl⟩
  have hstep : (stores id).system.step ⟨workspaceSample, fun _ => .idle⟩
      (.environment (.refresh ["a"] ⟨[⟨"f", "a"⟩], [], [], []⟩)) = some ⟨indexedSample, fun _ => .idle⟩ := rfl
  exact (feed_refined hinit hstep).right.right

end Step
end ProjectMap
