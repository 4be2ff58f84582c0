import Mathlib.Logic.Relation
import BridleModel.CodeMap.Feed
import BridleModel.CodeMap.Theorems.Artifacts
import BridleModel.Library.ChangeFeed
import BridleModel.Python.Path

open Except Plan ProjectMap Python

namespace CodeMap

section Paths

variable {path rel : String} {relPaths normalized : List String}

-- A normalized path is its own normal form.
theorem normalizeRelativePath_normalized (h : normalizeRelativePath path = .ok rel) :
    normalizeRelativePath rel = .ok rel ∧ rel ≠ "" := by
  unfold normalizeRelativePath at h
  extract_lets slashed parts normalized at h
  split at h
  case isTrue => cases h
  case isFalse hc =>
    obtain rfl := (Except.ok.inj h).symm
    have hne : parts ≠ [] := fun he => hc (.inl he)
    have hslash : ∀ part ∈ parts, '/' ∉ part := fun part hp => not_mem_splitOn part (List.mem_of_mem_filter hp)
    have hback : ∀ part ∈ parts, '\\' ∉ part := by
      intro part hp hb
      have hb := mem_of_mem_splitOn part (List.mem_of_mem_filter hp) hb
      have ⟨c, _, he⟩ := List.mem_map.mp hb
      split at he <;> simp_all
    have hfull : ∀ part ∈ parts, part ≠ [] := by
      intro part hp
      have hp := List.of_mem_filter (show part ∈ List.filter _ _ from hp)
      exact (of_decide_eq_true hp).left
    have hmap : (normalized.toList.map fun c => if c = '\\' then '/' else c) = ['/'].intercalate parts := by
      rw [String.toList_ofList]
      refine (List.map_congr_left fun c hm => if_neg ?_).trans (List.map_id _)
      rintro rfl
      cases mem_of_mem_intercalate hm with
      | inl he => exact absurd he (by decide)
      | inr hp =>
        have ⟨part, hp, hb⟩ := hp
        exact hback part hp hb
    have hparts : ((['/'].intercalate parts).splitOn '/').filter (fun part => part ≠ [] ∧ part ≠ ['.']) = parts := by
      rw [List.splitOn_intercalate '/' hslash hne]
      exact List.filter_eq_self.mpr fun part hp => (List.mem_filter.mp hp).right
    have ⟨c, hhead, hcs⟩ : ∃ c, normalized.toList.head? = some c ∧ c ≠ '/' := by
      have ⟨part, tl, hp⟩ := List.exists_cons_of_ne_nil hne
      have hm : part ∈ parts := hp ▸ List.mem_cons_self
      have ⟨c, cs, hcs⟩ := List.exists_cons_of_ne_nil (hfull part hm)
      refine ⟨c, ?_, fun he => hslash part hm (by simp [hcs, he])⟩
      rw [String.toList_ofList, hp, hcs]
      cases tl <;> simp
    refine ⟨?_, ?_⟩
    · unfold normalizeRelativePath
      simp only [hmap, hparts]
      refine if_neg ?_
      simp only [not_or] at hc ⊢
      refine ⟨hc.left, hc.right.left, ?_, hc.right.right.right⟩
      rw [hhead]
      exact fun he => hcs (Option.some.inj he)
    · intro he
      rw [he] at hhead
      cases hhead

theorem of_mem_normalizePaths (h : normalizePaths relPaths = .ok normalized) (hm : rel ∈ normalized) :
    normalizeRelativePath rel = .ok rel ∧ rel ≠ "" := by
  have ⟨paths, hp, hn⟩ := bind_eq_ok_iff.mp h
  cases hn
  rw [List.mem_insertionSort, List.mem_dedup] at hm
  have ⟨_, _, he⟩ := (mem_of_mapM hp).mp hm
  exact normalizeRelativePath_normalized he

end Paths

variable {E : Type} [CodeEntity E] {feed feed' : Feed E} {t : Transaction E} {e : E} {q rel : String}
variable {fileId : String → String} {projectId : String} {watched : String → Prop}
variable {event : ChangeRow} {events events' : List ChangeRow}

section Rows

-- What there is at a path
def Feed.rowsAt (feed : Feed E) (q : String) : Set E :=
  {e | e ∈ feed.entities ∧ CodeEntity.path e = q}

theorem Feed.mem_rowsAt : e ∈ feed.rowsAt q ↔ e ∈ feed.entities ∧ CodeEntity.path e = q :=
  .rfl

theorem Feed.eq_of_path {a b : E} (ha : a ∈ feed.entities) (hb : b ∈ feed.entities)
    (h : CodeEntity.path a = CodeEntity.path b) : a = b :=
  feed.entities.eq_of_mem_keys ha hb (k := .path (CodeEntity.path a)) (by simp [CodeEntity.keys])
    (by simp [CodeEntity.keys, h])

theorem Feed.eq_of_id {a b : E} (ha : a ∈ feed.entities) (hb : b ∈ feed.entities)
    (h : CodeEntity.id a = CodeEntity.id b) : a = b :=
  feed.entities.eq_of_mem_keys ha hb (k := .id (CodeEntity.id a)) (by simp [CodeEntity.keys])
    (by simp [CodeEntity.keys, h])

theorem insertEntity_ok (h : feed.insertEntity e = some feed') :
    feed'.changes = feed.changes ∧ ∀ x, x ∈ feed'.entities ↔ x ∈ feed.entities ∨ x = e := by
  have ⟨entities, hi, he⟩ := Option.map_eq_some_iff.mp h
  subst he
  exact ⟨rfl, fun x => Table.mem_insert? hi⟩

theorem upsertEntity_ok (h : feed.upsertEntity e = some feed') : feed'.changes = feed.changes ∧
    ∀ x, x ∈ feed'.entities ↔ (x ∈ feed.entities ∧ CodeEntity.id x ≠ CodeEntity.id e) ∨ x = e := by
  have ⟨hc, he⟩ := insertEntity_ok h
  refine ⟨hc, fun x => ?_⟩
  simp [he, Table.mem_delete]

-- An entity that is there already, or that has nothing to do with the path
theorem upsertEntity_rowsAt (h : feed.upsertEntity e = some feed')
    (hq : e ∈ feed.rowsAt q ∨ CodeEntity.path e ≠ q ∧ ∀ old ∈ feed.rowsAt q, CodeEntity.id old ≠ CodeEntity.id e) :
    feed'.rowsAt q = feed.rowsAt q := by
  have ⟨_, he⟩ := upsertEntity_ok h
  ext x
  simp only [Feed.mem_rowsAt, he]
  cases hq with
  | inl hq =>
    constructor
    case mp  =>
      rintro ⟨⟨hx, _⟩ | rfl, hp⟩
      · exact ⟨hx, hp⟩
      · exact hq
    case mpr =>
      intro ⟨hx, hp⟩
      exact ⟨.inr (Feed.eq_of_path hx hq.left (hp.trans hq.right.symm)), hp⟩
  | inr hq =>
    constructor
    case mp  =>
      rintro ⟨⟨hx, _⟩ | rfl, hp⟩
      · exact ⟨hx, hp⟩
      · exact absurd hp hq.left
    case mpr =>
      intro ⟨hx, hp⟩
      exact ⟨.inl ⟨hx, hq.right x ⟨hx, hp⟩⟩, hp⟩

theorem mem_purgePaths {paths : List String} {x : E} : x ∈ (paths.foldl Feed.purgePath feed).entities ↔
    x ∈ feed.entities ∧ ∀ rel ∈ paths, ¬underPath rel (CodeEntity.path x) := by
  induction paths generalizing feed with
  | nil          => simp
  | cons rel _ hi => simp [hi, Feed.purgePath, Table.mem_delete, and_assoc]

theorem purgePaths_changes {paths : List String} : (paths.foldl Feed.purgePath feed).changes = feed.changes := by
  induction paths generalizing feed with
  | nil          => rfl
  | cons rel _ hi => exact hi

end Rows

section Tells

-- What an event tells about a path
def Tells (event : ChangeRow) (q : String) : Prop :=
  (∃ rel, isRefresh event ∧ event.payload = [("path", .str rel)] ∧ OfFile rel q) ∨ event.entityType = "project_map"

-- Every refresh names a path of the map.
def Legible (changes : List ChangeRow) : Prop :=
  ∀ event ∈ changes, isRefresh event →
    ∃ rel, event.payload = [("path", .str rel)] ∧ normalizeRelativePath rel = .ok rel ∧ rel ≠ ""

theorem Legible.append (h : Legible events) (h' : Legible events') : Legible (events ++ events') := by
  intro event he
  cases List.mem_append.mp he with
  | inl he => exact h event he
  | inr he => exact h' event he

theorem legible_others {others : List OtherEvent} : Legible (others.map (·.val)) := by
  intro event he hr
  have ⟨other, _, ho⟩ := List.mem_map.mp he
  cases (ho ▸ other.property).symm.trans hr

theorem legible_status {status reason : String} : Legible [statusEvent projectId status reason] := by
  intro event he hr
  cases List.mem_singleton.mp he
  simp [isRefresh, statusEvent] at hr

theorem legible_refreshes {normalized : List String}
    (h : ∀ rel ∈ normalized, normalizeRelativePath rel = .ok rel ∧ rel ≠ "") :
    Legible (normalized.map (refreshEvent fileId)) := by
  intro event he _
  have ⟨rel, hm, hr⟩ := List.mem_map.mp he
  exact ⟨rel, hr ▸ rfl, h rel hm⟩

-- A refresh that changes what there is at a path outside its files: it takes away what lies below a refreshed
-- directory, or stores something new.
def Transaction.Silent (t : Transaction E) (feed : Feed E) (q : String) : Prop :=
  match t with
  | .refresh relPaths scanned _ => ∃ normalized, normalizePaths relPaths = .ok normalized ∧
    (∀ rel ∈ normalized, ¬OfFile rel q) ∧
      ((∃ old ∈ feed.rowsAt q, ∃ rel ∈ normalized, underPath rel (CodeEntity.path old)) ∨
        ∃ e ∈ scanned, e ∉ feed.entities ∧
          (CodeEntity.path e = q ∨ ∃ old ∈ feed.rowsAt q, CodeEntity.id old = CodeEntity.id e))
  | _ => False

theorem upsertEntities_ok {scanned : List E} {base : Feed E} (h : scanned.foldlM Feed.upsertEntity feed = some feed')
    (hbase : feed.rowsAt q = base.rowsAt q) (hs : ∀ e ∈ scanned, e ∈ base.entities ∨
      CodeEntity.path e ≠ q ∧ ∀ old ∈ base.rowsAt q, CodeEntity.id old ≠ CodeEntity.id e) :
    feed'.rowsAt q = base.rowsAt q := by
  induction scanned generalizing feed with
  | nil          =>
    cases h
    exact hbase
  | cons e es hi =>
    rw [List.foldlM_cons] at h
    have ⟨next, hu, hn⟩ := Option.bind_eq_some_iff.mp h
    have ⟨he, hes⟩ := List.forall_mem_cons.mp hs
    refine hi hn ?_ hes
    rw [← hbase]
    refine upsertEntity_rowsAt hu ?_
    rw [hbase]
    cases he with
    | inr hq => exact .inr hq
    | inl he =>
      by_cases hp : CodeEntity.path e = q
      case pos => exact .inl ⟨he, hp⟩
      case neg => exact .inr ⟨hp, fun old ho hid => hp (Feed.eq_of_id ho.left he hid ▸ ho.right)⟩

theorem foldlM_changes {f : Feed E → E → Option (Feed E)} {scanned : List E}
    (hf : ∀ {feed feed' e}, f feed e = some feed' → feed'.changes = feed.changes)
    (h : scanned.foldlM f feed = some feed') : feed'.changes = feed.changes := by
  induction scanned generalizing feed with
  | nil          =>
    cases h
    rfl
  | cons e es hi =>
    rw [List.foldlM_cons] at h
    have ⟨next, hu, hn⟩ := Option.bind_eq_some_iff.mp h
    exact (hi hn).trans (hf hu)

theorem pending_of_mem {log log' : List ChangeRow} {n : Nat} (h : log' = log ++ events) (hn : n ≤ log.length)
    (he : event ∈ events) (ht : Tells event q) : ChangeFeed.Pending Tells log' n q := by
  refine ⟨event, ?_, ht⟩
  rw [h, List.drop_append_of_le_length hn]
  exact List.mem_append_right _ he

theorem rowsAt_purgePaths {paths : List String}
    (h : ∀ old ∈ feed.rowsAt q, ∀ rel ∈ paths, ¬underPath rel (CodeEntity.path old)) :
    (paths.foldl Feed.purgePath feed).rowsAt q = feed.rowsAt q := by
  ext x
  rw [Feed.mem_rowsAt, Feed.mem_rowsAt, mem_purgePaths]
  constructor
  case mp  => exact fun hx => ⟨hx.left.left, hx.right⟩
  case mpr => exact fun hx => ⟨⟨hx.left, h x hx⟩, hx.right⟩

theorem commit_told (h : feed.commit fileId projectId t = some feed') (hw : ∀ q, watched q → ¬t.Silent feed q) :
    ChangeFeed.Told Tells watched feed.changes feed'.changes feed.rowsAt feed'.rowsAt := by
  cases t with
  | record events                   =>
    cases h
    exact ⟨List.prefix_append .., fun _ _ => .inl rfl⟩
  | rescan scanned events           =>
    have ⟨replaced, hr, he⟩ := Option.bind_eq_some_iff.mp h
    cases he
    have hc := foldlM_changes (fun h => (insertEntity_ok h).left) hr
    have hlog : ((replaced.record (events.map (·.val))).record
        [statusEvent projectId "structure_ready" "deterministic_scan_completed"]).changes = feed.changes ++
          (statusEvent projectId "scanning_structure" "deterministic_scan_started" :: (events.map (·.val) ++
            [statusEvent projectId "structure_ready" "deterministic_scan_completed"])) := by
      simp [Feed.record, hc]
    refine ⟨hlog ▸ List.prefix_append .., fun q _ => .inr ?_⟩
    exact pending_of_mem hlog (Nat.le_refl _) List.mem_cons_self (.inr rfl)
  | refresh relPaths scanned events =>
    have ⟨normalized, hn, h⟩ := Option.bind_eq_some_iff.mp h
    have ⟨indexed, hi, he⟩ := Option.bind_eq_some_iff.mp h
    cases he
    have hn := toOption_eq_some_iff.mp hn
    have hc := (foldlM_changes (fun h => (upsertEntity_ok h).left) hi).trans purgePaths_changes
    have hlog : ((indexed.record (events.map (·.val))).record (normalized.map (refreshEvent fileId))).changes =
        feed.changes ++ (events.map (·.val) ++ normalized.map (refreshEvent fileId)) := by
      simp [Feed.record, hc]
    refine ⟨hlog ▸ List.prefix_append .., fun q hq => ?_⟩
    by_cases hf : ∃ rel ∈ normalized, OfFile rel q
    case pos =>
      have ⟨rel, hm, hof⟩ := hf
      have ht : Tells (refreshEvent fileId rel) q := .inl ⟨rel, by simp [isRefresh, refreshEvent], rfl, hof⟩
      exact .inr <| pending_of_mem hlog (Nat.le_refl _)
        (List.mem_append_right _ (List.mem_map.mpr ⟨rel, hm, rfl⟩)) ht
    case neg =>
      have hs : ¬_ := fun hs => hw q hq ⟨normalized, hn, fun rel hm hof => hf ⟨rel, hm, hof⟩, hs⟩
      rw [not_or] at hs
      have hpurge := rowsAt_purgePaths fun old ho rel hm hu => hs.left ⟨old, ho, rel, hm, hu⟩
      refine .inl (show indexed.rowsAt q = feed.rowsAt q from upsertEntities_ok hi hpurge fun e he => ?_)
      by_contra hn
      rw [not_or, not_and_or, not_not] at hn
      refine hs.right ⟨e, he, hn.left, hn.right.imp_right fun ho => ?_⟩
      simpa using ho

theorem commit_legible (h : feed.commit fileId projectId t = some feed') (hn : Legible feed.changes) :
    Legible feed'.changes := by
  cases t with
  | record events                   =>
    cases h
    exact hn.append legible_others
  | rescan scanned events           =>
    have ⟨replaced, hr, he⟩ := Option.bind_eq_some_iff.mp h
    cases he
    have hc := foldlM_changes (fun h => (insertEntity_ok h).left) hr
    exact ((hc ▸ hn.append legible_status : Legible replaced.changes).append legible_others).append legible_status
  | refresh relPaths scanned events =>
    have ⟨normalized, hp, h⟩ := Option.bind_eq_some_iff.mp h
    have ⟨indexed, hi, he⟩ := Option.bind_eq_some_iff.mp h
    cases he
    have hc := (foldlM_changes (fun h => (upsertEntity_ok h).left) hi).trans purgePaths_changes
    have hi : Legible indexed.changes := hc ▸ hn
    have hp := toOption_eq_some_iff.mp hp
    exact (hi.append legible_others).append (legible_refreshes fun _ => of_mem_normalizePaths hp)

variable (fileId projectId) in
-- A feed that transactions have led to
def Feed.Reachable (feed : Feed E) : Prop :=
  Relation.ReflTransGen (fun f f' : Feed E => ∃ t, f.commit fileId projectId t = some f') .empty feed

theorem Feed.Reachable.legible (h : feed.Reachable fileId projectId) : Legible feed.changes := by
  induction h with
  | refl         => exact fun _ he => nomatch he
  | tail _ ht hi =>
    have ⟨_, hc⟩ := ht
    exact commit_legible hc hi

end Tells

section Pages

variable {n : Nat} {limit : Int}

theorem numbered_events : feed.numbered.map (·.event) = feed.changes := by
  refine List.ext_getElem (by simp [Feed.numbered]) fun i h h' => ?_
  simp [Feed.numbered]

theorem itemsAfter_events : (feed.itemsAfter n limit).map (·.event) =
    (feed.changes.drop n).take (boundedLimit limit) := by
  rw [Feed.itemsAfter, List.map_take, List.map_drop, numbered_events]

theorem length_itemsAfter : (feed.itemsAfter n limit).length = min (boundedLimit limit) (feed.changes.length - n) := by
  simp [Feed.itemsAfter, Feed.numbered]

-- The rows are numbered without gaps.
theorem lastSeq_changesAfter : (feed.changesAfter n limit).lastSeq = n + (feed.itemsAfter n limit).length := by
  change ((feed.itemsAfter n limit).getLast?.map (·.changeSeq)).getD n = _
  by_cases he : feed.itemsAfter n limit = []
  case pos => simp [he]
  case neg =>
    have hpos := List.length_pos_iff.mpr he
    have hlast : ((feed.itemsAfter n limit).getLast he).changeSeq =
        n + ((feed.itemsAfter n limit).length - 1) + 1 := by
      rw [List.getLast_eq_getElem]
      simp [Feed.itemsAfter, Feed.numbered]
    rw [List.getLast?_eq_some_getLast he, Option.map_some, Option.getD_some, hlast]
    omega

end Pages
end CodeMap
