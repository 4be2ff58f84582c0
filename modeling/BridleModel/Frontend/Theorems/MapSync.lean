import Mathlib.Data.Set.Lattice
import BridleModel.CodeMap.Theorems.Feed
import BridleModel.Frontend.MapSync

open CodeMap Plan ProjectMap

namespace MapSync

variable {E A : Type} [CodeEntity E] {jsString : Json → String} {localeCompare : String → String → Int}
variable {entities existing incoming : List E} {events events' : List ChangeRow} {event : ChangeRow}
variable {cache : MapLayerCache E A} {left right result : ApplyChangesResult E A} {rel q : String} {x : E}

-- What there is at a path
def rowsAt (entities : List E) (q : String) : Set E :=
  {e | e ∈ entities ∧ CodeEntity.path e = q}

section Cache

theorem mem_removeEntitiesForPath :
    x ∈ removeEntitiesForPath entities rel ↔ x ∈ entities ∧ ¬OfFile rel (CodeEntity.path x) := by
  simp [removeEntitiesForPath, OfFile, SymbolOf]

theorem nodup_entries (he : (existing.map CodeEntity.id).Nodup) :
    ((existing.map fun e => (CodeEntity.id e, e)).map (·.fst)).Nodup := by
  rwa [List.map_map]

theorem get_entries (he : (existing.map CodeEntity.id).Nodup) {k : String} :
    Assoc.get (existing.map fun e => (CodeEntity.id e, e)) k = some x ↔ x ∈ existing ∧ CodeEntity.id x = k := by
  rw [Assoc.get_eq_some_iff (nodup_entries he)]
  simp [and_comm, eq_comm]

-- A dict by id holds the entities whose ids are new, and the incoming ones.
theorem mem_mergeEntitiesById (he : (existing.map CodeEntity.id).Nodup) (hi : (incoming.map CodeEntity.id).Nodup) :
    x ∈ mergeEntitiesById localeCompare existing incoming ↔
      x ∈ incoming ∨ x ∈ existing ∧ ∀ y ∈ incoming, CodeEntity.id y ≠ CodeEntity.id x := by
  have hd := nodup_entries he
  rw [mergeEntitiesById, Assoc.dict_of_distinct hd, List.mem_insertionSort, List.mem_map]
  simp only [Prod.exists, exists_eq_right, ← Assoc.get_eq_some_iff (Assoc.nodup_foldl_set hd),
    Assoc.get_foldl_set_iff hi, get_entries he]
  constructor
  case mp  =>
    rintro ⟨k, ⟨hx, _⟩ | ⟨⟨hx, rfl⟩, hn⟩⟩
    · exact .inl hx
    · exact .inr ⟨hx, hn⟩
  case mpr =>
    rintro (hx | ⟨hx, hn⟩)
    · exact ⟨CodeEntity.id x, .inl ⟨hx, rfl⟩⟩
    · exact ⟨CodeEntity.id x, .inr ⟨⟨hx, rfl⟩, hn⟩⟩

theorem nodup_mergeEntitiesById (he : (existing.map CodeEntity.id).Nodup) (hi : (incoming.map CodeEntity.id).Nodup) :
    ((mergeEntitiesById localeCompare existing incoming).map CodeEntity.id).Nodup := by
  have hd := nodup_entries he
  have hm : ((incoming.foldl (fun merged e => Assoc.set merged (CodeEntity.id e) e)
      (existing.map fun e => (CodeEntity.id e, e))).map (·.fst)).Nodup := Assoc.nodup_foldl_set hd
  rw [mergeEntitiesById, Assoc.dict_of_distinct hd]
  refine (List.Perm.map _ (List.perm_insertionSort ..)).nodup_iff.mpr ?_
  rw [List.map_map]
  refine (congrArg List.Nodup (List.map_congr_left ?_)).mp hm
  intro ⟨k, e⟩ hmem
  cases (Assoc.get_foldl_set_iff hi).mp (Assoc.get_of_mem hm hmem) with
  | inl h => exact h.right.symm
  | inr h => exact ((get_entries he).mp h.left).right.symm

end Cache

section Apply

variable (jsString) in
-- The path whose entities the client drops and fetches again
def refreshPath? (event : ChangeRow) : Option String :=
  if isRefresh event ∧ pathOf jsString event ≠ "" then some (pathOf jsString event) else none

variable (jsString) in
-- An event that the client can follow
def supported (event : ChangeRow) : Bool :=
  if isRefresh event then pathOf jsString event ≠ ""
  else event.entityType = "semantic_annotation" ∨
    event.entityType ≠ "map_objection" ∧ event.entityType ≠ "project_map"

variable (jsString) in
def annotates (event : ChangeRow) : Bool :=
  (refreshPath? jsString event).isSome ∨ event.entityType = "semantic_annotation"

variable (jsString) in
-- What the events come to
def summary (cache : MapLayerCache E A) (events : List ChangeRow) : ApplyChangesResult E A where
  cache                 := { cache with
    entities := (events.filterMap (refreshPath? jsString)).foldl removeEntitiesForPath cache.entities }
  incremental           := events.all (supported jsString)
  needsEntityPage       := events.any (refreshPath? jsString · |>.isSome)
  invalidateAnnotations := events.any (annotates jsString)
  invalidateRelations   := events.any (refreshPath? jsString · |>.isSome)
  invalidateBlindSpots  := events.any (refreshPath? jsString · |>.isSome)
  invalidateBoundaries  := events.any (refreshPath? jsString · |>.isSome)
  refreshPaths          := events.filterMap (refreshPath? jsString)

theorem applyChangeEvent_summary :
    applyChangeEvent jsString (summary jsString cache events) event = summary jsString cache (events ++ [event]) := by
  unfold applyChangeEvent
  split
  case isTrue hr  =>
    have ht : event.entityType ≠ "semantic_annotation" := by
      rw [(decide_eq_true_eq.mp hr).left]
      decide
    dsimp only
    split
    case isTrue hp  => simp [summary, refreshPath?, supported, annotates, hr, hp, ht]
    case isFalse hp => simp [summary, refreshPath?, supported, annotates, hr, hp]
  case isFalse hr =>
    split
    case isTrue ht  => simp [summary, refreshPath?, supported, annotates, hr, ht]
    case isFalse ht =>
      split
      case isTrue ho  => simp [summary, refreshPath?, supported, annotates, hr, ht, ← not_or, ho]
      case isFalse ho =>
        have hs : supported jsString event := by simpa [supported, hr, ht] using ho
        simp [summary, refreshPath?, annotates, hr, ht, hs]

theorem applyChangeEvents_eq : applyChangeEvents jsString cache events = summary jsString cache events := by
  induction events using List.reverseRecOn with
  | nil                 => rfl
  | append_singleton events event hi =>
    rw [applyChangeEvents, List.foldl_append, List.foldl_cons, List.foldl_nil, ← applyChangeEvent_summary, ← hi]
    rfl

theorem mem_foldl_removeEntitiesForPath {paths : List String} :
    x ∈ paths.foldl removeEntitiesForPath entities ↔ x ∈ entities ∧ ∀ rel ∈ paths, ¬OfFile rel (CodeEntity.path x) := by
  induction paths generalizing entities with
  | nil          => simp
  | cons rel _ hi => simp [hi, mem_removeEntitiesForPath, and_assoc]

theorem foldl_removeEntitiesForPath_sublist {paths : List String} :
    (paths.foldl removeEntitiesForPath entities).Sublist entities := by
  induction paths generalizing entities with
  | nil          => exact .refl _
  | cons rel _ hi => exact hi.trans List.filter_sublist

-- The flags of all pages so far are those of their events.
structure Aggregates (jsString : Json → String) (events : List ChangeRow) (result : ApplyChangesResult E A) : Prop where
  incremental           : result.incremental = events.all (supported jsString)
  needsEntityPage       : result.needsEntityPage = events.any (refreshPath? jsString · |>.isSome)
  invalidateAnnotations : result.invalidateAnnotations = events.any (annotates jsString)
  invalidateRelations   : result.invalidateRelations = events.any (refreshPath? jsString · |>.isSome)
  invalidateBlindSpots  : result.invalidateBlindSpots = events.any (refreshPath? jsString · |>.isSome)
  invalidateBoundaries  : result.invalidateBoundaries = events.any (refreshPath? jsString · |>.isSome)
  refreshPaths          : ∀ rel, rel ∈ result.refreshPaths ↔ rel ∈ events.filterMap (refreshPath? jsString)

omit [CodeEntity E] in
theorem aggregates_unchanged : Aggregates jsString [] (unchanged cache) := by
  constructor <;> simp [unchanged]

theorem Aggregates.page (h : Aggregates jsString events left) :
    Aggregates jsString (events ++ events') (mergeApplyFlags left (summary jsString cache events')) := by
  constructor <;> simp [mergeApplyFlags, summary, h.incremental, h.needsEntityPage, h.invalidateAnnotations,
    h.invalidateRelations, h.invalidateBlindSpots, h.invalidateBoundaries, h.refreshPaths]

end Apply
section Follow

-- A refresh that the client can follow tells it the path that the store has recorded.
theorem refreshPath?_of_legible (hn : Legible events) (he : event ∈ events)
    (hr : refreshPath? jsString event = some rel) :
    event.payload = [("path", .str rel)] ∧ normalizeRelativePath rel = .ok rel := by
  unfold refreshPath? at hr
  split at hr
  case isFalse => cases hr
  case isTrue hc =>
    have ⟨path, hp, hnorm, _⟩ := hn event he hc.left
    have hpath : pathOf jsString event = path := by simp [pathOf, hp, Json.Dict.get]
    rw [hpath] at hr
    cases hr
    exact ⟨hp, hnorm⟩

theorem tells_iff (hn : Legible events) (he : event ∈ events) (hs : supported jsString event) :
    Tells event q ↔ ∃ rel, refreshPath? jsString event = some rel ∧ OfFile rel q := by
  constructor
  case mp  =>
    intro ht
    cases ht with
    | inl ht =>
      obtain ⟨rel, hr, hp, hf⟩ := ht
      obtain ⟨path, hp', _, hne⟩ := hn event he hr
      cases hp.symm.trans hp'
      have hpath : pathOf jsString event = rel := by simp [pathOf, hp, Json.Dict.get]
      exact ⟨rel, by simp [refreshPath?, hr, hpath, hne], hf⟩
    | inr ht => simp [supported, isRefresh, ht] at hs
  case mpr =>
    rintro ⟨rel, hr, hf⟩
    obtain ⟨hp, _⟩ := refreshPath?_of_legible hn he hr
    unfold refreshPath? at hr
    split at hr
    case isFalse  => cases hr
    case isTrue h => exact .inl ⟨rel, h.left, hp, hf⟩

variable (cache) in
theorem rowsAt_applied (hn : Legible events) (hs : events.all (supported jsString)) :
    (∀ q, (∃ e ∈ events, Tells e q) → rowsAt (summary jsString cache events).cache.entities q = ⊥) ∧
      ∀ q, (¬∃ e ∈ events, Tells e q) → rowsAt (summary jsString cache events).cache.entities q =
        rowsAt cache.entities q := by
  have ht : ∀ q, (∃ e ∈ events, Tells e q) ↔ ∃ rel ∈ events.filterMap (refreshPath? jsString), OfFile rel q := by
    intro q
    simp only [List.mem_filterMap]
    constructor
    case mp  =>
      intro ⟨e, he, h⟩
      have ⟨rel, hr, hf⟩ := (tells_iff hn he (List.all_eq_true.mp hs e he)).mp h
      exact ⟨rel, ⟨e, he, hr⟩, hf⟩
    case mpr =>
      intro ⟨rel, ⟨e, he, hr⟩, hf⟩
      exact ⟨e, he, (tells_iff hn he (List.all_eq_true.mp hs e he)).mpr ⟨rel, hr, hf⟩⟩
  constructor
  case left  =>
    intro q hq
    have ⟨rel, hr, hf⟩ := (ht q).mp hq
    ext x
    simp only [rowsAt, summary, mem_foldl_removeEntitiesForPath]
    refine iff_of_false (fun hx => ?_) fun hx => hx
    exact hx.left.right rel hr (hx.right ▸ hf)
  case right =>
    intro q hq
    ext x
    simp only [rowsAt, summary, mem_foldl_removeEntitiesForPath]
    constructor
    case mp  => exact fun hx => ⟨hx.left.left, hx.right⟩
    case mpr => exact fun hx => ⟨⟨hx.left, fun rel hr hf => hq ((ht q).mpr ⟨rel, hr, hx.right ▸ hf⟩)⟩, hx.right⟩

end Follow

section Slice

variable {feed : Feed E} {slice : List E}

theorem nodup_ids : (feed.entities.rows.map CodeEntity.id).Nodup := by
  refine List.pairwise_map.mpr (feed.entities.unique.imp fun {a b} h he => ?_)
  exact h (.id (CodeEntity.id a)) List.mem_cons_self (he ▸ List.mem_cons_self)

theorem pathSlice_ok (hr : normalizeRelativePath rel = .ok rel) :
    ∃ slice, feed.pathSlice rel = .ok slice ∧ (slice.map CodeEntity.id).Nodup ∧
      ∀ x, x ∈ slice ↔ x ∈ feed.entities ∧ inFile rel (CodeEntity.path x) := by
  refine ⟨_, Except.bind_eq_ok_iff.mpr ⟨rel, hr, rfl⟩, ?_, fun x => ?_⟩
  · refine (SortBy.perm_sortBy.map _).nodup_iff.mpr ?_
    exact nodup_ids.sublist (List.filter_sublist.map _)
  · rw [SortBy.mem_sortBy, List.mem_filter]
    rfl

-- The slice is merged by id; what the copy shares with the store stays.
theorem rowsAt_merged (he : (existing.map CodeEntity.id).Nodup) (hs : (slice.map CodeEntity.id).Nodup)
    (hm : ∀ x ∈ slice, x ∈ feed.entities) (hle : rowsAt existing q ≤ feed.rowsAt q) :
    rowsAt (mergeEntitiesById localeCompare existing slice) q = rowsAt existing q ⊔ rowsAt slice q := by
  ext x
  have hmem := @mem_mergeEntitiesById E _ localeCompare existing slice x he hs
  constructor
  case mp  =>
    intro ⟨hx, hq⟩
    cases hmem.mp hx with
    | inl hx => exact .inr ⟨hx, hq⟩
    | inr hx => exact .inl ⟨hx.left, hq⟩
  case mpr =>
    intro hx
    cases hx with
    | inr hx => exact ⟨hmem.mpr (.inl hx.left), hx.right⟩
    | inl hx =>
      refine ⟨hmem.mpr ?_, hx.right⟩
      by_cases hy : ∃ y ∈ slice, CodeEntity.id y = CodeEntity.id x
      case pos =>
        have ⟨y, hy, hid⟩ := hy
        exact .inl (Feed.eq_of_id (hm y hy) (hle hx).left hid ▸ hy)
      case neg => exact .inr ⟨hx.left, fun y hs hid => hy ⟨y, hs, hid⟩⟩

end Slice

end MapSync
