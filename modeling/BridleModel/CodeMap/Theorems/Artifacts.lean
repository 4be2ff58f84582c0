import BridleModel.CodeMap.Artifacts

open ProjectMap Sqlite

namespace CodeMap

-- What lies under a path, by its name alone.
section Names

variable {rel path : String}

def SymbolOf (rel path : String) : Prop :=
  (rel ++ "::").toList <+: path.toList

def Below (rel path : String) : Prop :=
  (rel ++ "/").toList <+: path.toList

def OfFile (rel path : String) : Prop :=
  path = rel ∨ SymbolOf rel path

def Under (rel path : String) : Prop :=
  OfFile rel path ∨ Below rel path

instance : Decidable (SymbolOf rel path) :=
  inferInstanceAs (Decidable ((rel ++ "::").toList <+: path.toList))

instance : Decidable (Below rel path) :=
  inferInstanceAs (Decidable ((rel ++ "/").toList <+: path.toList))

instance : Decidable (OfFile rel path) :=
  inferInstanceAs (Decidable (path = rel ∨ SymbolOf rel path))

instance : Decidable (Under rel path) :=
  inferInstanceAs (Decidable (OfFile rel path ∨ Below rel path))

theorem likeChars_eq_glob {pattern : List Char} : likeChars pattern = glob (pattern.map likePart) := by
  induction pattern with
  | nil               => rfl
  | cons c pattern hi =>
    funext text
    rw [List.map_cons, likeChars.eq_def, likePart.eq_def]
    cases text with
    | nil       => split <;> simp_all [glob]
    | cons d ds => split <;> simp_all [glob]

-- Without wildcards LIKE takes one text for another that differs in the case of its ASCII letters only.
theorem like_of_plain {other : String} (h : ∀ c ∈ rel.toList, c ≠ '%' ∧ c ≠ '_') :
    like other rel ↔ other.toList.map Char.toLower = rel.toList.map Char.toLower := by
  rw [like, likeChars_eq_glob, glob_likePart_of_plain h]

theorem like_self : like rel rel := by
  rw [like, likeChars_eq_glob]
  exact glob_likePart

theorem like_append_iff {tail : String} (h : ∀ c ∈ tail.toList, c.toNat < 65 ∧ c ≠ '%') :
    like path (rel ++ (tail ++ "%")) ↔ ∃ other, like other rel ∧ (other ++ tail).toList <+: path.toList := by
  have hp : (rel ++ (tail ++ "%")).toList = rel.toList ++ tail.toList ++ ['%'] := by simp [String.toList_append]
  simp only [like, likeChars_eq_glob]
  rw [hp, glob_likePart_iff h]
  constructor
  · rintro ⟨xs, hx, ht⟩
    exact ⟨.ofList xs, by simpa using hx, by simpa using ht⟩
  · rintro ⟨other, ho, ht⟩
    exact ⟨other.toList, ho, by simpa using ht⟩

theorem like_below_iff : like path (rel ++ "/%") ↔ ∃ other, like other rel ∧ Below other path :=
  @like_append_iff rel path "/" (by simp)

theorem like_symbol_iff : like path (rel ++ "::%") ↔ ∃ other, like other rel ∧ SymbolOf other path :=
  @like_append_iff rel path "::" (by simp)

theorem glob_symbol_iff : globText path (rel ++ "::*") ↔
    globClosed .outside rel.toList ∧ ∃ other, globText other rel ∧ SymbolOf other path := by
  have hp : (rel ++ "::*").toList = rel.toList ++ "::".toList ++ ['*'] := by simp [String.toList_append]
  have hc : ∀ c ∈ "::".toList, c ∉ ['*', '?', '[', ']'] := by simp
  rw [globText, hp, globParts_iff hc]
  refine and_congr_right fun _ => ?_
  constructor
  · rintro ⟨xs, hx, ht⟩
    exact ⟨.ofList xs, by simpa [globText] using hx, by simpa [SymbolOf] using ht⟩
  · rintro ⟨other, ho, ht⟩
    exact ⟨other.toList, ho, by simpa [SymbolOf] using ht⟩

theorem underPath_iff : underPath rel path ↔
    path = rel ∨ ∃ other, like other rel ∧ (Below other path ∨ SymbolOf other path) := by
  rw [underPath, decide_eq_true_eq, like_below_iff, like_symbol_iff, ← exists_or]
  simp only [and_or_left]

theorem inFile_iff : inFile rel path ↔ path = rel ∨ ∃ other, like other rel ∧ SymbolOf other path := by
  rw [inFile, decide_eq_true_eq, like_symbol_iff]

theorem Under.underPath (h : Under rel path) : underPath rel path := by
  rw [underPath_iff]
  cases h with
  | inl h =>
    cases h with
    | inl h => exact .inl h
    | inr h => exact .inr ⟨rel, like_self, .inr h⟩
  | inr h => exact .inr ⟨rel, like_self, .inl h⟩

theorem OfFile.inFile (h : OfFile rel path) : inFile rel path := by
  rw [inFile_iff]
  cases h with
  | inl h => exact .inl h
  | inr h => exact .inr ⟨rel, like_self, h⟩

end Names

section Refresh

variable {db : Artifacts} {rel relPath : String}

-- No stored path lies under another spelling of the path, as LIKE takes it, and the symbols that GLOB finds are
-- those of the path.
structure Distinct (db : Artifacts) (rel : String) : Prop where
  under    : ∀ e ∈ db.entities, ∀ other, like other rel → Below other e.path ∨ SymbolOf other e.path → Under rel e.path
  file     : ∀ e ∈ db.entities, ∀ other, like other rel → SymbolOf other e.path → OfFile rel e.path
  monikers : ∀ s ∈ db.symbols, SymbolOf rel s.moniker ↔
               globClosed .outside rel.toList ∧ ∃ other, globText other rel ∧ SymbolOf other s.moniker

-- An end of the relation is an entity under the path.
def Artifacts.Meets (db : Artifacts) (rel : String) (r : RelationRow) : Prop :=
  ∃ e ∈ db.entities, Under rel e.path ∧ (r.sourceId = e.id ∨ r.targetId = e.id)

-- The purge of a path
structure PurgesOnly (db : Artifacts) (rel : String) : Prop where
  entities    : ∀ e, e ∈ (db.purgePathArtifacts rel).entities ↔ e ∈ db.entities ∧ ¬Under rel e.path
  relations   : ∀ r, r ∈ (db.purgePathArtifacts rel).relations ↔ r ∈ db.relations ∧ ¬db.Meets rel r
  occurrences : ∀ o, o ∈ (db.purgePathArtifacts rel).occurrences ↔ o ∈ db.occurrences ∧ o.filePath ≠ rel
  symbols     : ∀ s, s ∈ (db.purgePathArtifacts rel).symbols ↔ s ∈ db.symbols ∧ ¬SymbolOf rel s.moniker
  blindSpots  : ∀ b, b ∈ (db.purgePathArtifacts rel).blindSpots ↔ b ∈ db.blindSpots ∧ b.filePath ≠ some rel

-- The files whose relations are rebuilt, what is deleted for them, and the symbols that the indexer replaces
structure RebuildsOnly (db : Artifacts) (rel : String) : Prop where
  paths    : ∀ path, path ∈ db.collectRelationRebuildPaths (db.entityIdsForPaths [rel]) [rel] ↔
               path ≠ rel ∧ ∃ r ∈ db.relations, db.Meets rel r ∧ ∃ e ∈ db.entities,
                 (r.sourceId = e.id ∨ r.targetId = e.id) ∧ ¬Under rel e.path ∧ filePart e.path = path
  outgoing : ∀ r, r ∈ (db.deleteOutgoing [rel]).relations ↔ r ∈ db.relations ∧
               ¬(r.kind ≠ "contains" ∧ ∃ e ∈ db.entities, Under rel e.path ∧ r.sourceId = e.id)
  symbols  : ∀ scip : ScipIndexResult, ∀ s ∈ db.symbols, (∀ n ∈ scip.symbols, n.moniker ≠ s.moniker) →
               (s ∈ (db.replaceScipForPaths [rel] scip).symbols ↔ ¬SymbolOf rel s.moniker)

-- The answer to a query for the path
structure PathSlice.Exact (slice : PathSlice) (db : Artifacts) (rel : String) : Prop where
  entities   : ∀ e, e ∈ slice.entities ↔ e ∈ db.entities ∧ OfFile rel e.path
  relations  : ∀ r, r ∈ slice.relations ↔ r ∈ db.relations ∧
                 ∃ e ∈ db.entities, OfFile rel e.path ∧ (r.sourceId = e.id ∨ r.targetId = e.id)
  blindSpots : ∀ b, b ∈ slice.blindSpots ↔ b ∈ db.blindSpots ∧ b.filePath = some rel

-- A refresh of the path and a query for it touch what is stored under the path, and nothing else.
structure TouchesOnly (db : Artifacts) (relPath rel : String) : Prop where
  purge   : PurgesOnly db rel
  rebuild : RebuildsOnly db rel
  slice   : ∃ slice, db.pathSlice relPath = .ok slice ∧ slice.Exact db rel

theorem mem_entityIds {id : String} :
    id ∈ db.entityIdsForPaths [rel] ↔ ∃ e ∈ db.entities, underPath rel e.path ∧ e.id = id := by
  simp [Artifacts.entityIdsForPaths, Table.mem_def, and_assoc]

theorem Distinct.underPath_iff (h : Distinct db rel) {e : EntityRow} (he : e ∈ db.entities) :
    underPath rel e.path ↔ Under rel e.path := by
  constructor
  · rw [CodeMap.underPath_iff]
    rintro (hp | ⟨other, ho, hu⟩)
    · exact .inl (.inl hp)
    · exact h.under e he other ho hu
  · exact Under.underPath

theorem Distinct.inFile_iff (h : Distinct db rel) {e : EntityRow} (he : e ∈ db.entities) :
    inFile rel e.path ↔ OfFile rel e.path := by
  constructor
  · rw [CodeMap.inFile_iff]
    rintro (hp | ⟨other, ho, hs⟩)
    · exact .inl hp
    · exact h.file e he other ho hs
  · exact OfFile.inFile

theorem Distinct.mem_entityIds (h : Distinct db rel) {id : String} :
    id ∈ db.entityIdsForPaths [rel] ↔ ∃ e ∈ db.entities, Under rel e.path ∧ e.id = id := by
  rw [CodeMap.mem_entityIds]
  exact exists_congr fun e => and_congr_right fun he => and_congr_left' (h.underPath_iff he)

theorem Distinct.touching_iff (h : Distinct db rel) {r : RelationRow} :
    Artifacts.touching (db.entityIdsForPaths [rel]) r ↔ db.Meets rel r := by
  rw [Artifacts.touching, decide_eq_true_eq, h.mem_entityIds, h.mem_entityIds, Artifacts.Meets, ← exists_or]
  simp only [← and_or_left, eq_comm]

theorem Distinct.purgesOnly (h : Distinct db rel) : PurgesOnly db rel where
  entities e := by
    rw [Artifacts.purgePathArtifacts, Table.mem_delete, ← Bool.not_eq_true]
    exact and_congr_right fun he => not_congr (h.underPath_iff he)
  relations r := by
    rw [Artifacts.purgePathArtifacts, Table.mem_delete, ← Bool.not_eq_true, h.touching_iff]
  occurrences o := by simp [Artifacts.purgePathArtifacts]
  symbols s := by
    rw [Artifacts.purgePathArtifacts, Table.mem_delete, ← Bool.not_eq_true, glob_symbol_iff]
    exact and_congr_right fun hs => not_congr (h.monikers s hs).symm
  blindSpots b := by simp [Artifacts.purgePathArtifacts, Table.mem_delete]

theorem rebuildPath?_eq_some_iff {stale normalized : List String} {id path : String} :
    db.rebuildPath? stale normalized id = some path ↔
      id ∉ stale ∧ path ∉ normalized ∧ ∃ e ∈ db.entities, e.id = id ∧ filePart e.path = path := by
  rw [Artifacts.rebuildPath?]
  split
  case isTrue hs => exact iff_of_false (by simp) fun h => h.1 hs
  case isFalse hs =>
    rw [and_iff_right hs]
    cases he : db.entities.lookup (.id id) with
    | none   =>
      rw [Table.lookup_eq_none_iff] at he
      refine iff_of_false (by simp) ?_
      rintro ⟨-, e, hm, rfl, -⟩
      exact he e hm List.mem_cons_self
    | some e =>
      obtain ⟨hm, hk⟩ := Table.lookup_eq_some_iff.mp he
      have hid : e.id = id := by simpa [eq_comm] using hk
      have one : ∀ o ∈ db.entities, o.id = id → o = e := fun o ho hoid =>
        db.entities.eq_of_mem_keys ho hm (k := .id id) (by simp [hoid]) hk
      dsimp only
      split
      case isTrue hn =>
        refine iff_of_false (by simp) ?_
        rintro ⟨hp, o, ho, hoid, rfl⟩
        exact hp (one o ho hoid ▸ hn)
      case isFalse hn =>
        rw [Option.some.injEq]
        constructor
        · rintro rfl
          exact ⟨hn, e, hm, hid, rfl⟩
        · rintro ⟨-, o, ho, hoid, rfl⟩
          rw [one o ho hoid]

theorem mem_collectRelationRebuildPaths {stale normalized : List String} {path : String} :
    path ∈ db.collectRelationRebuildPaths stale normalized ↔ path ∉ normalized ∧
      ∃ r ∈ db.relations, Artifacts.touching stale r ∧ ∃ e ∈ db.entities,
        (r.sourceId = e.id ∨ r.targetId = e.id) ∧ e.id ∉ stale ∧ filePart e.path = path := by
  simp only [Artifacts.collectRelationRebuildPaths, List.mem_dedup, List.mem_flatMap, List.mem_filter,
    List.mem_filterMap, rebuildPath?_eq_some_iff, List.mem_cons, List.not_mem_nil, or_false, Table.mem_def]
  constructor
  · rintro ⟨r, ⟨hr, ht⟩, id, hid, hs, hn, e, he, rfl, hp⟩
    exact ⟨hn, r, hr, ht, e, he, hid.imp Eq.symm Eq.symm, hs, hp⟩
  · rintro ⟨hn, r, hr, ht, e, he, hid, hs, hp⟩
    exact ⟨r, ⟨hr, ht⟩, e.id, hid.imp Eq.symm Eq.symm, hs, hn, e, he, rfl, hp⟩

theorem Distinct.not_mem_entityIds (h : Distinct db rel) {e : EntityRow} (he : e ∈ db.entities) :
    e.id ∉ db.entityIdsForPaths [rel] ↔ ¬Under rel e.path := by
  rw [h.mem_entityIds]
  refine not_congr ⟨?_, fun hu => ⟨e, he, hu, rfl⟩⟩
  rintro ⟨o, ho, hu, hid⟩
  rwa [← db.entities.eq_of_mem_keys ho he (k := .id e.id) (by simp [hid]) (by simp)]

theorem mem_upsertSymbols {symbols : Table SymbolRow fun row => [row.moniker]} {new : List SymbolRow} {s : SymbolRow}
    (h : ∀ n ∈ new, n.moniker ≠ s.moniker) : s ∈ new.foldl Table.replace symbols ↔ s ∈ symbols := by
  induction new generalizing symbols with
  | nil          => rfl
  | cons n tl hi =>
    rw [List.foldl_cons, hi fun m hm => h m (List.mem_cons_of_mem _ hm), Table.mem_replace]
    have hn := h n List.mem_cons_self
    constructor
    · rintro (hs | rfl)
      · exact hs.1
      · exact absurd rfl hn
    · exact fun hs => .inl ⟨hs, by simpa [eq_comm] using hn⟩

theorem mem_replaceScip {scip : ScipIndexResult} {s : SymbolRow} (h : ∀ n ∈ scip.symbols, n.moniker ≠ s.moniker) :
    s ∈ (db.replaceScipForPaths [rel] scip).symbols ↔ s ∈ db.symbols ∧ ¬globText s.moniker (rel ++ "::*") := by
  rw [Artifacts.replaceScipForPaths, Artifacts.upsertScipData, mem_upsertSymbols h, List.foldl_cons, List.foldl_nil,
    Table.mem_delete, Bool.not_eq_true]

theorem Distinct.rebuildsOnly (h : Distinct db rel) : RebuildsOnly db rel where
  paths path := by
    rw [mem_collectRelationRebuildPaths, List.mem_singleton]
    refine and_congr_right fun _ => exists_congr fun r => and_congr_right fun _ => ?_
    rw [h.touching_iff]
    exact and_congr_right fun _ => exists_congr fun e => and_congr_right fun he => and_congr_right fun _ =>
      and_congr_left' (h.not_mem_entityIds he)
  outgoing r := by
    rw [Artifacts.deleteOutgoing, Table.mem_delete, decide_eq_false_iff_not, h.mem_entityIds]
    simp only [eq_comm]
  symbols scip s hs hn := by
    rw [mem_replaceScip hn, and_iff_right hs, glob_symbol_iff]
    exact not_congr (h.monikers s hs).symm

variable (db) in
theorem pathSlice_ok (hr : normalizeRelativePath relPath = .ok rel) : ∃ slice, db.pathSlice relPath = .ok slice ∧
    (∀ e, e ∈ slice.entities ↔ e ∈ db.entities ∧ inFile rel e.path) ∧
    (slice.relations = db.relations.rows.filter (Artifacts.touching (slice.entities.map (·.id)))) ∧
    slice.blindSpots = db.blindSpots.rows.filter (·.filePath = some rel) := by
  refine ⟨_, Except.bind_eq_ok_iff.mpr ⟨rel, hr, rfl⟩, fun e => ?_, rfl, rfl⟩
  rw [SortBy.mem_sortBy, List.mem_filter]
  rfl

theorem Distinct.slice (h : Distinct db rel) (hr : normalizeRelativePath relPath = .ok rel) :
    ∃ slice, db.pathSlice relPath = .ok slice ∧ slice.Exact db rel := by
  obtain ⟨slice, hs, he, hrel, hb⟩ := pathSlice_ok db hr
  have entities : ∀ e, e ∈ slice.entities ↔ e ∈ db.entities ∧ OfFile rel e.path := fun e => by
    rw [he]
    exact and_congr_right fun hm => h.inFile_iff hm
  refine ⟨slice, hs, entities, fun r => ?_, fun b => ?_⟩
  · rw [hrel, List.mem_filter, Artifacts.touching, decide_eq_true_eq]
    refine and_congr_right fun _ => ?_
    simp only [List.mem_map, entities, and_assoc, ← exists_or, ← and_or_left, eq_comm]
  · rw [hb, List.mem_filter, decide_eq_true_eq]
    rfl

-- A refresh of a path touches only that path exactly when no other stored path can be taken for it.
theorem touchesOnly_iff (hr : normalizeRelativePath relPath = .ok rel) :
    TouchesOnly db relPath rel ↔ Distinct db rel := by
  constructor
  · intro h
    constructor
    case under    =>
      intro e he other ho hu
      by_contra hn
      have hp := ((h.purge.entities e).mpr ⟨he, hn⟩)
      rw [Artifacts.purgePathArtifacts, Table.mem_delete, ← Bool.not_eq_true] at hp
      exact hp.2 (underPath_iff.mpr (.inr ⟨other, ho, hu⟩))
    case file     =>
      intro e he other ho hs
      obtain ⟨slice, hok, hx⟩ := h.slice
      obtain ⟨slice', hok', hm, -⟩ := pathSlice_ok db hr
      obtain rfl : slice = slice' := Except.ok.inj (hok.symm.trans hok')
      exact ((hx.entities e).mp ((hm e).mpr ⟨he, inFile_iff.mpr (.inr ⟨other, ho, hs⟩)⟩)).2
    case monikers =>
      intro s hs
      rw [← glob_symbol_iff]
      have hp := h.purge.symbols s
      rw [Artifacts.purgePathArtifacts, Table.mem_delete, ← Bool.not_eq_true, and_congr_right_iff] at hp
      exact (not_iff_not.mp (hp hs)).symm
  · exact fun h => ⟨h.purgesOnly, h.rebuildsOnly, h.slice hr⟩

section Sample

def sibling : EntityRow :=
  ⟨"code-2", "src/axb.py::f", "function", "f", none, []⟩

-- Two files of one directory, each with a function; `_` matches any character.
def similarNames : Artifacts where
  entities    := ([⟨"code-1", "src/a_b.py::f", "function", "f", none, []⟩, sibling].foldlM Table.insert? .empty).getD .empty
  relations   := .empty
  occurrences := []
  symbols     := .empty
  blindSpots  := .empty

theorem sibling_mem : sibling ∈ similarNames.entities :=
  List.mem_cons_of_mem _ List.mem_cons_self

theorem normalize_similarNames : normalizeRelativePath "src/a_b.py" = .ok "src/a_b.py" := by
  rw [normalizeRelativePath, if_neg (by decide +kernel)]
  exact congrArg _ (by decide +kernel)

theorem touchesOnly_iff_similarNames : TouchesOnly similarNames "src/a_b.py" "src/a_b.py" ↔
    Distinct similarNames "src/a_b.py" :=
  touchesOnly_iff normalize_similarNames

theorem not_touchesOnly : ¬∀ (db : Artifacts) (relPath rel : String), normalizeRelativePath relPath = .ok rel →
    TouchesOnly db relPath rel := by
  intro h
  have hp := (h similarNames "src/a_b.py" "src/a_b.py" normalize_similarNames).purge
  -- the function of the other file goes with the purge
  have hm := (hp.entities sibling).mpr ⟨sibling_mem, by decide +kernel⟩
  rw [Artifacts.purgePathArtifacts, Table.mem_delete] at hm
  exact absurd hm.2 (by decide +kernel)

end Sample

end Refresh
end CodeMap
