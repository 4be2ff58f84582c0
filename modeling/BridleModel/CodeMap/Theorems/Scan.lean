import BridleModel.CodeMap.Scan

namespace CodeMap

section Keys

variable {digest : String → String} {s s' : Source} {defs : List Source}

-- What the key of a source holds after its kind
def Source.rest (s : Source) : String :=
  match s.symbol with
  | none        => s.rel
  | some symbol => s.rel ++ ":" ++ symbol

theorem EntityKind.value_injective {k k' : EntityKind} (h : k.value = k'.value) : k = k' := by
  cases k with
  | _ => cases k' with
    | _ => first | rfl | exact absurd h (by decide)

theorem EntityKind.colon_not_mem {k : EntityKind} : ':' ∉ k.value.toList := by
  cases k with
  | _ => decide

theorem append_colon_inj {xs ys xs' ys' : List Char} (hx : ':' ∉ xs) (hx' : ':' ∉ xs')
    (h : xs ++ ':' :: ys = xs' ++ ':' :: ys') : xs = xs' ∧ ys = ys' := by
  induction xs generalizing xs' with
  | nil          =>
    cases xs' with
    | nil       => exact ⟨rfl, (List.cons.inj h).2⟩
    | cons c cs => exact absurd ((List.cons.inj h).1 ▸ List.mem_cons_self) hx'
  | cons c cs hi =>
    cases xs' with
    | nil         => exact absurd ((List.cons.inj h).1 ▸ List.mem_cons_self) hx
    | cons c' cs' =>
      obtain ⟨rfl, ht⟩ := List.cons.inj h
      obtain ⟨rfl, hy⟩ := hi (List.not_mem_of_not_mem_cons hx) (List.not_mem_of_not_mem_cons hx') ht
      exact ⟨rfl, hy⟩

theorem Source.key_eq : s.key = s.kind.value ++ ":" ++ s.rest := by
  cases hs : s.symbol with
  | none   => simp [key, rest, hs]
  | some _ => simp [key, rest, hs, String.append_assoc]

theorem Source.key_eq_iff : s.key = s'.key ↔ s.kind = s'.kind ∧ s.rest = s'.rest := by
  constructor
  · intro h
    rw [key_eq, key_eq] at h
    have hl := congrArg String.toList h
    simp only [String.toList_append, List.append_assoc] at hl
    obtain ⟨hk, hr⟩ := append_colon_inj EntityKind.colon_not_mem EntityKind.colon_not_mem hl
    exact ⟨EntityKind.value_injective (String.toList_injective hk), String.toList_injective hr⟩
  · rintro ⟨hk, hr⟩
    rw [key_eq, key_eq, hk, hr]

theorem entityId_eq_iff (hd : Function.Injective digest) : entityId digest s = entityId digest s' ↔ s.key = s'.key := by
  constructor
  · intro h
    exact hd (by simpa [entityId] using h)
  · intro h
    rw [entityId, entityId, h]

end Keys

-- Two lists of entities whose ids cannot meet.
section Unique

variable {digest : String → String} {base symbols : List Scanned}

structure UniqueKeys (rows : List EntityRow) : Prop where
  ids   : (rows.map (·.id)).Nodup
  paths : (rows.map (·.path)).Nodup

-- The definitions of a workspace are told apart by their keys and their paths, and no file or directory has the
-- path of one.
structure Unambiguous (defs : List Source) (scanned : List String) : Prop where
  keys  : (defs.map Source.key).Nodup
  paths : (defs.map Source.path).Nodup
  fresh : ∀ d ∈ defs, d.path ∉ scanned

structure Base (base : List Scanned) : Prop where
  plain    : ∀ e ∈ base, e.source.symbol = none
  kind     : ∀ e ∈ base, e.source.kind ∈ [.directory, .file, .test]
  distinct : (base.map (·.source.path)).Nodup

structure Symbols (symbols : List Scanned) : Prop where
  kind : ∀ e ∈ symbols, e.source.kind ∈ [.function, .class, .method]

theorem nodup_map_imp {α β γ : Type} {l : List α} {f : α → β} {g : α → γ} (h : (l.map f).Nodup)
    (hi : ∀ a ∈ l, ∀ b ∈ l, g a = g b → f a = f b) : (l.map g).Nodup := by
  rw [List.Nodup, List.pairwise_map] at h ⊢
  exact h.imp_of_mem fun ha hb hne he => hne (hi _ ha _ hb he)

theorem Base.keys (hb : Base base) : (base.map (·.source.key)).Nodup := by
  refine nodup_map_imp hb.distinct fun a ha b hb' h => ?_
  obtain ⟨_, hr⟩ := Source.key_eq_iff.mp h
  simpa [Source.rest, Source.path, hb.plain a ha, hb.plain b hb'] using hr

theorem Base.key_ne (hb : Base base) (hs : Symbols symbols) {a b : Scanned} (ha : a ∈ base) (hb' : b ∈ symbols) :
    a.source.key ≠ b.source.key := by
  intro h
  have hk := hb.kind a ha
  have hk' := hs.kind b hb'
  rw [(Source.key_eq_iff.mp h).1] at hk
  cases hc : b.source.kind with
  | _ => rw [hc] at hk hk'; revert hk hk'; decide

-- The rows of a scan have unique ids and paths exactly when its definitions are told apart.
theorem uniqueKeys_iff (hd : Function.Injective digest) (hb : Base base) (hs : Symbols symbols) :
    UniqueKeys ((base ++ symbols).map (·.row digest)) ↔
      Unambiguous (symbols.map (·.source)) (base.map (·.source.path)) := by
  have hids : (((base ++ symbols).map (·.row digest)).map (·.id)).Nodup ↔
      ((symbols.map (·.source)).map Source.key).Nodup := by
    have hkey : (((base ++ symbols).map (·.row digest)).map (·.id)).Nodup ↔
        ((base ++ symbols).map (·.source.key)).Nodup := by
      rw [List.map_map]
      exact ⟨fun h => nodup_map_imp h fun a _ b _ he => (entityId_eq_iff hd).mpr he,
        fun h => nodup_map_imp h fun a _ b _ he => (entityId_eq_iff hd).mp he⟩
    rw [hkey, List.map_append, List.nodup_append', List.map_map]
    refine ⟨fun h => h.2.1, fun h => ⟨hb.keys, h, ?_⟩⟩
    intro key hk hk'
    obtain ⟨a, ha, rfl⟩ := List.mem_map.mp hk
    obtain ⟨b, hb', he⟩ := List.mem_map.mp hk'
    exact hb.key_ne hs ha hb' he.symm
  have hpaths : (((base ++ symbols).map (·.row digest)).map (·.path)).Nodup ↔
      ((symbols.map (·.source)).map Source.path).Nodup ∧
        ∀ d ∈ symbols.map (·.source), d.path ∉ base.map (·.source.path) := by
    rw [List.map_map, List.map_append, List.nodup_append', List.map_map]
    constructor
    · rintro ⟨_, hn, hdis⟩
      refine ⟨hn, ?_⟩
      rintro d hm hp
      obtain ⟨e, he, rfl⟩ := List.mem_map.mp hm
      exact hdis hp (List.mem_map.mpr ⟨e, he, rfl⟩)
    · rintro ⟨hn, hf⟩
      refine ⟨hb.distinct, hn, ?_⟩
      intro path hp hp'
      obtain ⟨e, he, rfl⟩ := List.mem_map.mp hp'
      exact hf e.source (List.mem_map_of_mem he) hp
  exact ⟨fun h => ⟨hids.mp h.ids, (hpaths.mp h.paths).1, (hpaths.mp h.paths).2⟩,
    fun h => ⟨hids.mpr h.keys, hpaths.mpr ⟨h.paths, h.fresh⟩⟩⟩

end Unique

section Names

variable {digest : String → String} {base symbols : List Scanned} {defs : List Source} {scanned : List String}
  {s s' : Source}

-- Symbols of files without a colon in their paths
structure Plain (defs : List Source) (scanned : List String) : Prop where
  symbol  : ∀ d ∈ defs, d.symbol.isSome
  rel     : ∀ d ∈ defs, ':' ∉ d.rel.toList
  scanned : ∀ path ∈ scanned, ':' ∉ path.toList

theorem Source.rest_inj (hs : s.symbol.isSome) (hs' : s'.symbol.isSome) (hc : ':' ∉ s.rel.toList)
    (hc' : ':' ∉ s'.rel.toList) (h : s.rest = s'.rest) : s.rel = s'.rel ∧ s.symbol = s'.symbol := by
  obtain ⟨q, hq⟩ := Option.isSome_iff_exists.mp hs
  obtain ⟨q', hq'⟩ := Option.isSome_iff_exists.mp hs'
  simp only [rest, hq, hq'] at h
  have hl := congrArg String.toList h
  simp only [String.toList_append, List.append_assoc] at hl
  obtain ⟨hr, hy⟩ := append_colon_inj hc hc' hl
  exact ⟨String.toList_injective hr, by rw [hq, hq', String.toList_injective hy]⟩

theorem Source.path_inj (hs : s.symbol.isSome) (hs' : s'.symbol.isSome) (hc : ':' ∉ s.rel.toList)
    (hc' : ':' ∉ s'.rel.toList) (h : s.path = s'.path) : s.rel = s'.rel ∧ s.symbol = s'.symbol := by
  obtain ⟨q, hq⟩ := Option.isSome_iff_exists.mp hs
  obtain ⟨q', hq'⟩ := Option.isSome_iff_exists.mp hs'
  simp only [path, hq, hq'] at h
  have hl := congrArg String.toList h
  simp only [String.toList_append, List.append_assoc] at hl
  obtain ⟨hr, hy⟩ := append_colon_inj hc hc' hl
  exact ⟨String.toList_injective hr, by rw [hq, hq', String.toList_injective (List.cons.inj hy).2]⟩

-- Where no path has a colon, only a repeated qualified name in one file makes a scan ambiguous.
theorem Plain.unambiguous_iff (h : Plain defs scanned) :
    Unambiguous defs scanned ↔ (defs.map fun d => (d.rel, d.symbol)).Nodup := by
  constructor
  · intro hu
    refine nodup_map_imp hu.paths fun a _ b _ he => ?_
    obtain ⟨hr, hs⟩ := Prod.mk.inj he
    simp only [Source.path, hr, hs]
  · intro hn
    refine ⟨nodup_map_imp hn fun a ha b hb he => ?_, nodup_map_imp hn fun a ha b hb he => ?_, fun d hd hp => ?_⟩
    · obtain ⟨hr, hs⟩ := Source.rest_inj (h.symbol a ha) (h.symbol b hb) (h.rel a ha) (h.rel b hb)
        (Source.key_eq_iff.mp he).2
      exact Prod.ext hr hs
    · obtain ⟨hr, hs⟩ := Source.path_inj (h.symbol a ha) (h.symbol b hb) (h.rel a ha) (h.rel b hb) he
      exact Prod.ext hr hs
    · obtain ⟨q, hq⟩ := Option.isSome_iff_exists.mp (h.symbol d hd)
      refine h.scanned _ hp ?_
      simp [Source.path, hq]

-- The ids of a scan determine what they are derived from exactly when the keys of its definitions do.
theorem determined_iff (hd : Function.Injective digest) (hb : Base base) (hs : Symbols symbols) :
    (∀ e ∈ base ++ symbols, ∀ e' ∈ base ++ symbols,
      entityId digest e.source = entityId digest e'.source → e.source = e'.source) ↔
    ∀ d ∈ symbols.map (·.source), ∀ d' ∈ symbols.map (·.source), d.key = d'.key → d = d' := by
  constructor
  · intro h d hm d' hm' hk
    obtain ⟨e, he, rfl⟩ := List.mem_map.mp hm
    obtain ⟨e', he', rfl⟩ := List.mem_map.mp hm'
    exact h e (List.mem_append_right _ he) e' (List.mem_append_right _ he') ((entityId_eq_iff hd).mpr hk)
  · intro h e he e' he' hi
    have hk := (entityId_eq_iff hd).mp hi
    cases List.mem_append.mp he with
    | inl he =>
      cases List.mem_append.mp he' with
      | inl he' =>
        obtain ⟨hkind, hr⟩ := Source.key_eq_iff.mp hk
        have hp := hb.plain e he
        have hp' := hb.plain e' he'
        simp only [Source.rest, hp, hp'] at hr
        exact Source.ext hkind hr (hp.trans hp'.symm)
      | inr he' => exact absurd hk (hb.key_ne hs he he')
    | inr he =>
      cases List.mem_append.mp he' with
      | inl he' => exact absurd hk.symm (hb.key_ne hs he' he)
      | inr he' => exact h _ (List.mem_map_of_mem he) _ (List.mem_map_of_mem he') hk

end Names

-- What the walk and the indexer return.
section Scan

variable {digest : String → String} {ws : Workspace} {testDirs : List String} {rel : String}

theorem appendSymbol_kind {node : Named} {kind : EntityKind} {parentId language : String} {qualifier : Option String}
    {e : Scanned} (h : appendSymbol rel node kind parentId language qualifier = some e) :
    e.source.kind = kind ∧ e.source.rel = rel ∧ e.source.symbol.isSome := by
  obtain ⟨name, _, rfl⟩ := Option.map_eq_some_iff.mp h
  exact ⟨rfl, rfl, rfl⟩

-- The kinds and the file of the symbols of one file
def IsSymbol (rel : String) (e : Scanned) : Prop :=
  e.source.kind ∈ [EntityKind.function, .class, .method] ∧ e.source.rel = rel ∧ e.source.symbol.isSome

theorem isSymbol_of_append {node : Named} {kind : EntityKind} {parentId language : String}
    {qualifier : Option String} {e : Scanned} (hk : kind ∈ [EntityKind.function, .class, .method])
    (h : appendSymbol rel node kind parentId language qualifier = some e) : IsSymbol rel e := by
  obtain ⟨rfl, hr, hs⟩ := appendSymbol_kind h
  exact ⟨hk, hr, hs⟩

theorem isSymbol_py {node : PyNode} {e : Scanned} (h : e ∈ pySymbols digest rel node) : IsSymbol rel e := by
  cases node with
  | function node overload =>
    cases overload with
    | true  => cases h
    | false => exact isSymbol_of_append (by decide) (Option.mem_toList.mp h)
  | «class» node overload body =>
    cases overload with
    | true  => cases h
    | false =>
      simp only [pySymbols] at h
      split at h
      case h_1 => cases h
      case h_2 parent hp =>
        cases List.mem_cons.mp h with
        | inl h => exact h ▸ isSymbol_of_append (by decide) hp
        | inr h =>
          obtain ⟨member, _, hm⟩ := List.mem_filterMap.mp h
          cases member with
          | function node overload =>
            cases overload with
            | true  => cases hm
            | false => exact isSymbol_of_append (by decide) hm
          | other                  => cases hm
  | imports _ => cases h
  | other     => cases h

theorem isSymbol_ts {node : TsNode} {e : Scanned} (h : e ∈ tsSymbols digest rel node) : IsSymbol rel e := by
  cases node with
  | function node => exact isSymbol_of_append (by decide) (Option.mem_toList.mp h)
  | «class» node body =>
    simp only [tsSymbols] at h
    split at h
    case h_1 => cases h
    case h_2 parent hp =>
      cases List.mem_cons.mp h with
      | inl h => exact h ▸ isSymbol_of_append (by decide) hp
      | inr h =>
        obtain ⟨member, _, hm⟩ := List.mem_filterMap.mp h
        cases member with
        | method node => exact isSymbol_of_append (by decide) hm
        | other       => cases hm
  | declaration declarators =>
    obtain ⟨⟨node, isFunction⟩, _, hm⟩ := List.mem_filterMap.mp h
    cases isFunction with
    | true  =>
      have hm : appendSymbol rel node .function (fileId digest rel) "typescript" none = some e := hm
      exact isSymbol_of_append (by decide) hm
    | false => cases hm
  | imports _ => cases h
  | other     => cases h

theorem isSymbol_index {found : List Scanned × List Relation} {e : Scanned}
    (h : indexFile digest ws rel = some found) (he : e ∈ found.fst) : IsSymbol rel e := by
  rw [indexFile] at h
  split at h
  case isTrue =>
    obtain ⟨nodes, _, rfl⟩ := Option.map_eq_some_iff.mp h
    obtain ⟨node, _, hn⟩ := List.mem_flatMap.mp he
    exact isSymbol_py hn
  case isFalse =>
    split at h
    case isTrue =>
      obtain ⟨nodes, _, rfl⟩ := Option.map_eq_some_iff.mp h
      obtain ⟨node, _, hn⟩ := List.mem_flatMap.mp he
      exact isSymbol_ts hn
    case isFalse => cases h

theorem isSymbol_run {filePaths paths : List String} {e : Scanned}
    (h : e ∈ (runIndexer digest ws testDirs filePaths paths).symbolEntities) :
    e.source.rel ∈ filePaths ∧ IsSymbol e.source.rel e := by
  obtain ⟨found, hf, he⟩ := List.mem_flatMap.mp h
  obtain ⟨rel, hr, hi⟩ := List.mem_filterMap.mp hf
  have hs := isSymbol_index hi he
  have hm := (List.mem_filter.mp (List.mem_filter.mp hr).1).2
  exact ⟨hs.2.1 ▸ of_decide_eq_true hm, hs.1, rfl, hs.2.2⟩

theorem symbols_run {filePaths paths : List String} :
    Symbols (runIndexer digest ws testDirs filePaths paths).symbolEntities where
  kind _ he := (isSymbol_run he).2.1

theorem Base.classified {base : List Scanned} (hb : Base base) (testPaths : List String) :
    Base (applyTestClassification testPaths base) ∧
      (applyTestClassification testPaths base).map (·.source.path) = base.map (·.source.path) := by
  have hp : (applyTestClassification testPaths base).map (·.source.path) = base.map (·.source.path) := by
    rw [applyTestClassification, List.map_map]
    refine List.map_congr_left fun e _ => ?_
    simp only [Function.comp_apply]
    split
    case isTrue  => rfl
    case isFalse => rfl
  refine ⟨⟨fun e he => ?_, fun e he => ?_, hp ▸ hb.distinct⟩, hp⟩
  · obtain ⟨e', he', rfl⟩ := List.mem_map.mp he
    split
    case isTrue  => exact hb.plain e' he'
    case isFalse => exact hb.plain e' he'
  · obtain ⟨e', he', rfl⟩ := List.mem_map.mp he
    split
    case isTrue  => simp
    case isFalse => exact hb.kind e' he'

theorem scanNode_source {node : String × NodeKind} {e : Scanned} (h : scanNode digest node = some e) :
    e.source.symbol = none ∧ e.source.rel = node.fst ∧ e.source.kind ∈ [.directory, .file, .test] := by
  rw [scanNode] at h
  split at h
  case isFalse => cases h
  case isTrue =>
    split at h
    case h_1 => cases h; exact ⟨rfl, rfl, by simp [scanned]⟩
    case h_2 => cases h; exact ⟨rfl, rfl, by simp [scanned]⟩
    case h_3 => cases h

theorem scanNode_path {node : String × NodeKind} {e : Scanned} (h : scanNode digest node = some e) :
    e.source.path = node.fst := by
  obtain ⟨hs, hr, _⟩ := scanNode_source h
  simp only [Source.path, hs, hr]

theorem Base.byPath {base : List Scanned} (hb : Base base) : Base (byPath base) where
  plain e he := hb.plain e (SortBy.mem_sortBy.mp he)
  kind e he  := hb.kind e (SortBy.mem_sortBy.mp he)
  distinct   := (SortBy.perm_sortBy.map _).nodup_iff.mpr hb.distinct

theorem base_scanEntities : Base (scanEntities digest ws) := by
  refine Base.byPath ⟨fun e he => ?_, fun e he => ?_, ?_⟩
  · obtain ⟨node, _, hn⟩ := List.mem_filterMap.mp he
    exact (scanNode_source hn).1
  · obtain ⟨node, _, hn⟩ := List.mem_filterMap.mp he
    exact (scanNode_source hn).2.2
  · have hd := ws.distinct
    rw [List.Nodup, List.pairwise_map] at hd ⊢
    refine hd.filterMap _ fun a b hne e he e' he' => ?_
    rw [scanNode_path he, scanNode_path he']
    exact hne

-- What an explicit scan finds for a path is one entity.
theorem mem_scanPaths (paths : List String) {e : Scanned} (h : e ∈ scanPaths digest ws paths) :
    (ws.nodes.find? (·.fst = e.source.path)).bind (scanNode digest) = some e := by
  obtain ⟨⟨id, e⟩, hm, rfl⟩ := List.mem_map.mp (SortBy.mem_sortBy.mp h)
  obtain ⟨e', he', hp⟩ := List.mem_map.mp (Assoc.mem_of_mem_dict hm)
  obtain ⟨_, rfl⟩ := Prod.mk.inj hp
  obtain ⟨candidate, _, hc⟩ := List.mem_filterMap.mp he'
  obtain ⟨node, hn, hs⟩ := Option.bind_eq_some_iff.mp hc
  have hf : node.fst = candidate := by simpa using List.find?_some hn
  rw [scanNode_path hs, hf]
  exact hc

theorem base_scanPaths {paths : List String} : Base (scanPaths digest ws paths) := by
  have hs {e : Scanned} (he : e ∈ scanPaths digest ws paths) :
      e.source.symbol = none ∧ e.source.kind ∈ [.directory, .file, .test] := by
    obtain ⟨node, _, hn⟩ := Option.bind_eq_some_iff.mp (mem_scanPaths paths he)
    exact ⟨(scanNode_source hn).1, (scanNode_source hn).2.2⟩
  refine ⟨fun e he => (hs he).1, fun e he => (hs he).2, ?_⟩
  rw [scanPaths]
  refine (SortBy.perm_sortBy.map _).nodup_iff.mpr ?_
  rw [List.map_map]
  refine nodup_map_imp Assoc.nodup_dict fun a ha b hb he => ?_
  have hkey {a : String × Scanned} {found : List Scanned}
      (ha : a ∈ Assoc.dict (found.map fun e => (entityId digest e.source, e))) :
      a.fst = entityId digest a.snd.source := by
    obtain ⟨e, _, rfl⟩ := List.mem_map.mp (Assoc.mem_of_mem_dict ha)
    rfl
  have ha' := mem_scanPaths paths (SortBy.mem_sortBy.mpr (List.mem_map_of_mem ha))
  have hb' := mem_scanPaths paths (SortBy.mem_sortBy.mpr (List.mem_map_of_mem hb))
  simp only [Function.comp_apply] at he
  rw [he, hb'] at ha'
  rw [hkey ha, hkey hb, Option.some.inj ha']

end Scan

-- Inserting the rows of a scan.
section Insert

open ProjectMap (Db)

variable {db db' : ProjectMap.Db} {rows : List EntityRow} {row : ProjectMap.EntityRow}

theorem insertEntity_ok_iff : (∃ db', db.insertEntity row = .ok db') ↔
    ∀ r ∈ db.entities, r.id ≠ row.id ∧ r.path ≠ row.path := by
  constructor
  · rintro ⟨db', h⟩ r hr
    rw [Db.insertEntity] at h
    split at h
    case h_1 => cases h
    case h_2 t ht =>
      have hf := Table.insert?_fresh ht hr (k := ProjectMap.EntityKey.id r.id) (by simp)
      have hp := Table.insert?_fresh ht hr (k := ProjectMap.EntityKey.path r.path) (by simp)
      simp only [List.mem_cons, ProjectMap.EntityKey.id.injEq, ProjectMap.EntityKey.path.injEq, reduceCtorEq,
        List.not_mem_nil, or_false, false_or] at hf hp
      exact ⟨hf, hp⟩
  · intro h
    have hk : ∀ k ∈ [ProjectMap.EntityKey.id row.id, .path row.path], db.entities.lookup k = none := by
      intro k hk
      refine Table.lookup_eq_none_iff.mpr fun r hr hm => ?_
      simp only [List.mem_cons, List.not_mem_nil, or_false] at hk hm
      obtain ⟨hi, hp⟩ := h r hr
      cases hk with
      | inl hk => rw [hk] at hm; simp [Ne.symm hi] at hm
      | inr hk => rw [hk] at hm; simp [Ne.symm hp] at hm
    obtain ⟨t, ht⟩ := Table.insert?_isSome (t := db.entities) (a := row) hk
    exact ⟨{ db with entities := t }, by rw [Db.insertEntity, ht]⟩

theorem mem_insertEntity (h : db.insertEntity row = .ok db') {r : ProjectMap.EntityRow} :
    r ∈ db'.entities ↔ r ∈ db.entities ∨ r = row := by
  rw [Db.insertEntity] at h
  split at h
  case h_1 => cases h
  case h_2 t ht =>
    cases h
    exact Table.mem_insert? ht

-- The insertion of a scan's rows succeeds exactly when no two of them, and none of them and a row that is there,
-- share an id or a path.
variable (rows) in
theorem insertAll_ok_iff (db : ProjectMap.Db) :
    (∃ db', (rows.map EntityRow.entry).foldlM Db.insertEntity db = .ok db') ↔
      UniqueKeys rows ∧ ∀ row ∈ rows, ∀ r ∈ db.entities, r.id ≠ row.id ∧ r.path ≠ row.path := by
  induction rows generalizing db with
  | nil          => exact iff_of_true ⟨db, rfl⟩ ⟨⟨List.nodup_nil, List.nodup_nil⟩, by simp⟩
  | cons row rows hi =>
    simp only [List.map_cons, List.foldlM_cons]
    constructor
    · rintro ⟨db', h⟩
      obtain ⟨db₁, h₁, h₂⟩ := Except.bind_eq_ok_iff.mp h
      obtain ⟨hu, hr⟩ := (hi db₁).mp ⟨db', h₂⟩
      have hrow := insertEntity_ok_iff.mp ⟨db₁, h₁⟩
      have hnew := fun r hr' => hr r hr' row.entry ((mem_insertEntity h₁).mpr (.inr rfl))
      refine ⟨⟨?_, ?_⟩, ?_⟩
      · refine List.nodup_cons.mpr ⟨fun hm => ?_, hu.ids⟩
        obtain ⟨r, hr', he⟩ := List.mem_map.mp hm
        exact (hnew r hr').1 he.symm
      · refine List.nodup_cons.mpr ⟨fun hm => ?_, hu.paths⟩
        obtain ⟨r, hr', he⟩ := List.mem_map.mp hm
        exact (hnew r hr').2 he.symm
      · intro r hr' old hold
        cases List.mem_cons.mp hr' with
        | inl he  => exact he ▸ hrow old hold
        | inr hr' => exact hr r hr' old ((mem_insertEntity h₁).mpr (.inl hold))
    · rintro ⟨hu, hr⟩
      have hone : ∃ db₁, db.insertEntity row.entry = .ok db₁ := insertEntity_ok_iff.mpr (hr row List.mem_cons_self)
      obtain ⟨db₁, h₁⟩ := hone
      obtain ⟨hni, hids⟩ := List.nodup_cons.mp hu.ids
      obtain ⟨hnp, hpaths⟩ := List.nodup_cons.mp hu.paths
      have hrest : ∀ r ∈ rows, ∀ old ∈ db₁.entities, old.id ≠ r.id ∧ old.path ≠ r.path := by
        intro r hr' old hold
        cases (mem_insertEntity h₁).mp hold with
        | inl hold => exact hr r (List.mem_cons_of_mem _ hr') old hold
        | inr hold =>
          subst hold
          exact ⟨fun he => hni (List.mem_map.mpr ⟨r, hr', he.symm⟩),
            fun he => hnp (List.mem_map.mpr ⟨r, hr', he.symm⟩)⟩
      obtain ⟨db', h'⟩ := (hi db₁).mpr ⟨⟨hids, hpaths⟩, hrest⟩
      exact ⟨db', Except.bind_eq_ok_iff.mpr ⟨db₁, h₁, h'⟩⟩

-- A row of the map has the path of a row to be inserted and keeps it: its id is another one, and no row that is
-- inserted before has that id.
structure Squats (db : ProjectMap.Db) (rows : List EntityRow) (r : ProjectMap.EntityRow) (before : List EntityRow)
    (row : EntityRow) (after : List EntityRow) : Prop where
  split  : rows = before ++ row :: after
  stored : r ∈ db.entities
  path   : r.path = row.path
  id     : r.id ≠ row.id
  kept   : r.id ∉ before.map (·.id)

theorem upsertEntity_ok_iff : (∃ db', db.upsertEntity row = .ok db') ↔
    ∀ r ∈ db.entities, r.path = row.path → r.id = row.id := by
  rw [Db.upsertEntity, insertEntity_ok_iff]
  constructor
  · intro h r hr hp
    by_contra hi
    exact (h r (Table.mem_delete.mpr ⟨hr, by simpa using hi⟩)).2 hp
  · intro h r hr
    obtain ⟨hr, hi⟩ := Table.mem_delete.mp hr
    have hi : r.id ≠ row.id := by simpa using hi
    exact ⟨hi, fun hp => hi (h r hr hp)⟩

theorem mem_upsertEntity (h : db.upsertEntity row = .ok db') {r : ProjectMap.EntityRow} :
    r ∈ db'.entities ↔ (r ∈ db.entities ∧ r.id ≠ row.id) ∨ r = row := by
  rw [Db.upsertEntity] at h
  rw [mem_insertEntity h, Table.mem_delete]
  simp

theorem upsertAll_ok_iff (hu : UniqueKeys rows) :
    (∃ db', (rows.map EntityRow.entry).foldlM Db.upsertEntity db = .ok db') ↔
      ∀ r before row after, ¬Squats db rows r before row after := by
  induction rows generalizing db with
  | nil          => exact iff_of_true ⟨db, rfl⟩ fun _ _ _ _ hs => by simpa using hs.split
  | cons row rows hi =>
    obtain ⟨hni, hids⟩ := List.nodup_cons.mp hu.ids
    obtain ⟨hnp, hpaths⟩ := List.nodup_cons.mp hu.paths
    simp only [List.map_cons, List.foldlM_cons]
    constructor
    · rintro ⟨db', h⟩ r before row' after hs
      obtain ⟨db₁, h₁, h₂⟩ := Except.bind_eq_ok_iff.mp h
      cases before with
      | nil                =>
        obtain ⟨rfl, rfl⟩ := List.cons.inj hs.split
        exact hs.id (upsertEntity_ok_iff.mp ⟨db₁, h₁⟩ r hs.stored hs.path)
      | cons first before =>
        obtain ⟨rfl, ht⟩ := List.cons.inj hs.split
        obtain ⟨hne, hk⟩ := not_or.mp (List.mem_cons.not.mp hs.kept)
        exact hi ⟨hids, hpaths⟩ |>.mp ⟨db', h₂⟩ r before row' after
          ⟨ht, (mem_upsertEntity h₁).mpr (.inl ⟨hs.stored, hne⟩), hs.path, hs.id, hk⟩
    · intro h
      have hrow : ∀ r ∈ db.entities, r.path = row.path → r.id = row.id := by
        intro r hr hp
        by_contra hne
        exact h r [] row rows ⟨rfl, hr, hp, hne, by simp⟩
      have hone : ∃ db₁, db.upsertEntity row.entry = .ok db₁ := upsertEntity_ok_iff.mpr hrow
      obtain ⟨db₁, h₁⟩ := hone
      have hrest : ∀ r before row' after, ¬Squats db₁ rows r before row' after := by
        intro r before row' after hs
        cases (mem_upsertEntity h₁).mp hs.stored with
        | inl hr =>
          refine h r (row :: before) row' after
            ⟨congrArg (row :: ·) hs.split, hr.1, hs.path, hs.id, ?_⟩
          rw [List.map_cons, List.mem_cons, not_or]
          exact ⟨hr.2, hs.kept⟩
        | inr hr =>
          refine hnp (List.mem_map.mpr ⟨row', ?_, ?_⟩)
          · rw [hs.split]; simp
          · rw [← hs.path, hr]; rfl
      obtain ⟨db', h'⟩ := hi ⟨hids, hpaths⟩ |>.mpr hrest
      exact ⟨db', Except.bind_eq_ok_iff.mpr ⟨db₁, h₁, h'⟩⟩

end Insert

section Rescan

open ProjectMap (Db)

variable {digest : String → String} {ws : Workspace} {testDirs : List String} {db : ProjectMap.Db}
  {spots : List ProjectMap.SpotRow}

theorem exists_bind {ε α β : Type} {x : Except ε α} {f : α → Except ε β} :
    (∃ b, x >>= f = .ok b) ↔ ∃ a, x = .ok a ∧ ∃ b, f a = .ok b := by
  constructor
  · rintro ⟨b, h⟩
    obtain ⟨a, ha, hb⟩ := Except.bind_eq_ok_iff.mp h
    exact ⟨a, ha, b, hb⟩
  · rintro ⟨a, ha, b, hb⟩
    exact ⟨b, Except.bind_eq_ok_iff.mpr ⟨a, ha, hb⟩⟩

theorem rescanRows_unique (hd : Function.Injective digest) :
    UniqueKeys (rescanRows digest ws testDirs) ↔
      Unambiguous (rescanDefinitions digest ws testDirs) (scannedPaths (scanEntities digest ws)) := by
  let paths := (filePathsOf (scanEntities digest ws)).insertionSort (· ≤ ·)
  let index := runIndexer digest ws testDirs (filePathsOf (scanEntities digest ws)) paths
  obtain ⟨hb, hp⟩ := (base_scanEntities : Base (scanEntities digest ws)).classified index.testPaths
  have hu := uniqueKeys_iff hd hb (symbols_run : Symbols index.symbolEntities)
  rw [hp] at hu
  exact hu

theorem refreshRows_unique (hd : Function.Injective digest) {paths : List String} :
    UniqueKeys (refreshRows digest ws testDirs paths) ↔
      Unambiguous (refreshDefinitions digest ws testDirs paths) (scannedPaths (scanPaths digest ws paths)) := by
  let index := runIndexer digest ws testDirs (filePathsOf (scanPaths digest ws paths))
    (paths.dedup.insertionSort (· ≤ ·))
  obtain ⟨hb, hp⟩ := (base_scanPaths : Base (scanPaths digest ws paths)).classified index.testPaths
  have hu := uniqueKeys_iff hd hb (symbols_run : Symbols index.symbolEntities)
  rw [hp] at hu
  exact hu

theorem insertSpots_ok_iff (db : ProjectMap.Db) :
    (∃ db', spots.foldlM Db.insertSpot db = .ok db') ↔ (spots.foldlM Table.insert? db.spots).isSome := by
  induction spots generalizing db with
  | nil            => exact iff_of_true ⟨db, rfl⟩ rfl
  | cons spot tl hi =>
    rw [List.foldlM_cons, List.foldlM_cons, exists_bind]
    cases hs : db.spots.insert? spot with
    | none   =>
      refine iff_of_false ?_ (by simp)
      rintro ⟨db₁, h₁, _⟩
      rw [Db.insertSpot, hs] at h₁
      cases h₁
    | some t =>
      have h₁ : db.insertSpot spot = .ok { db with spots := t } := by rw [Db.insertSpot, hs]
      constructor
      · rintro ⟨db₁, h, h'⟩
        rw [h₁] at h
        cases h
        exact (hi _).mp h'
      · exact fun h => ⟨_, h₁, (hi _).mpr h⟩

theorem insertAll_spots {rows : List ProjectMap.EntityRow} {db' : ProjectMap.Db}
    (h : rows.foldlM Db.insertEntity db = .ok db') : db'.spots = db.spots :=
  Except.foldlM_preserves (P := fun d : ProjectMap.Db => d.spots = db.spots)
    (fun {b a b'} hb hs => by
      rw [Db.insertEntity] at hs
      split at hs
      case h_1 => cases hs
      case h_2 => cases hs; exact hb) rfl h

variable {c c' : Content} {scip : Scip} {blocked : Bool} {error : String}

-- The blind spots of the scan fit beside those that are not static.
def SpotsFit (spots : List ProjectMap.SpotRow) (c : Content) : Prop :=
  (spots.foldlM Table.insert? (c.map.spots.delete (·.isStatic))).isSome

theorem replaceEntities_spots {rows : List EntityRow} {relations : List Relation}
    (h : replaceEntities rows relations c = some c') : c'.map.spots = c.map.spots := by
  obtain ⟨map, hm, rfl⟩ := Option.map_eq_some_iff.mp h
  have hs : map.spots = ({ c.map with entities := .empty } : ProjectMap.Db).spots :=
    insertAll_spots (Except.toOption_eq_some_iff.mp hm)
  exact hs

variable (c) in
theorem replaceEntities_isSome {rows : List EntityRow} (relations : List Relation) :
    (∃ c', replaceEntities rows relations c = some c' ∧ c'.map.spots = c.map.spots) ↔ UniqueKeys rows := by
  have hok := insertAll_ok_iff rows { c.map with entities := .empty }
  constructor
  · rintro ⟨c', h, _⟩
    obtain ⟨map, hm, _⟩ := Option.map_eq_some_iff.mp h
    exact (hok.mp ⟨map, Except.toOption_eq_some_iff.mp hm⟩).1
  · intro hu
    obtain ⟨map, hm⟩ := hok.mpr ⟨hu, fun _ _ _ h => absurd h Table.not_mem_empty⟩
    have he : ∃ c', replaceEntities rows relations c = some c' := by
      rw [replaceEntities, Except.toOption_eq_some_iff.mpr hm]
      exact ⟨_, rfl⟩
    obtain ⟨c', hc⟩ := he
    exact ⟨c', hc, replaceEntities_spots hc⟩

theorem replaceSpots_isSome : (∃ c', replaceSpots spots c = some c') ↔ SpotsFit spots c := by
  rw [SpotsFit, ← insertSpots_ok_iff { c.map with spots := c.map.spots.delete (·.isStatic) }]
  constructor
  · rintro ⟨c', h⟩
    obtain ⟨map, hm, _⟩ := Option.map_eq_some_iff.mp h
    exact ⟨map, Except.toOption_eq_some_iff.mp hm⟩
  · rintro ⟨map, hm⟩
    exact ⟨{ c with map }, by rw [replaceSpots, Except.toOption_eq_some_iff.mpr hm, Option.map_some]⟩

-- The statements of a rescan all complete exactly when each of those that can fail does.
variable (c scip) in
theorem contents_isSome :
    (∃ c', Connection.contents (rescanStatements digest ws testDirs spots scip blocked) c = some c') ↔
      UniqueKeys (rescanRows digest ws testDirs) ∧ SpotsFit spots c ∧ blocked = false := by
  let started : Content := { c with map := c.map.setMapStatus .scanningStructure "deterministic_scan_started" }
  have hstart : SpotsFit spots started ↔ SpotsFit spots c := Iff.rfl
  have hscip {c₂ : Content} : SpotsFit spots { c₂ with
      symbols := scip.symbols.foldl Table.replace .empty, occurrences := scip.occurrences } ↔ SpotsFit spots c₂ :=
    Iff.rfl
  simp only [Connection.contents, rescanStatements, List.foldlM_cons, List.foldlM_nil]
  constructor
  · rintro ⟨c', h⟩
    obtain ⟨c₁, h₁, h⟩ := Option.bind_eq_some_iff.mp h
    obtain ⟨c₂, h₂, h⟩ := Option.bind_eq_some_iff.mp h
    obtain ⟨c₃, h₃, h⟩ := Option.bind_eq_some_iff.mp h
    obtain ⟨c₄, h₄, h⟩ := Option.bind_eq_some_iff.mp h
    obtain ⟨c₅, h₅, _⟩ := Option.bind_eq_some_iff.mp h
    cases h₁
    cases h₃
    have hs := replaceEntities_spots h₂
    have hf : SpotsFit spots c₂ := hscip.mp (replaceSpots_isSome.mp ⟨c₄, h₄⟩)
    refine ⟨(replaceEntities_isSome _ _).mp ⟨c₂, h₂, hs⟩, hstart.mp ?_, ?_⟩
    · rw [SpotsFit, ← hs]
      exact hf
    · cases blocked with
      | true  => cases h₅
      | false => rfl
  · rintro ⟨hu, hf, rfl⟩
    obtain ⟨c₂, h₂, hs⟩ := replaceEntities_isSome started
      ((rescanEntities digest ws testDirs).snd ++ scip.relations) |>.mpr hu
    have hf₂ : SpotsFit spots c₂ := by
      rw [SpotsFit, hs]
      exact hf
    obtain ⟨c₄, h₄⟩ := replaceSpots_isSome.mpr (hscip.mpr hf₂)
    refine ⟨_, Option.bind_eq_some_iff.mpr ⟨started, rfl, Option.bind_eq_some_iff.mpr ⟨c₂, h₂,
      Option.bind_eq_some_iff.mpr ⟨_, rfl, Option.bind_eq_some_iff.mpr ⟨c₄, h₄, rfl⟩⟩⟩⟩⟩

theorem run_commit {fs : List (Content → Option Content)} :
    (Connection.opened c).run (Connection.body fs ++ [.commit]) =
      (Connection.contents fs c).map Connection.opened := by
  rw [Connection.run, List.foldlM_append]
  have hr : (Connection.opened c).run (Connection.body fs) =
      (Connection.contents fs c).map fun t => { durable := c, transaction := some t } := Connection.run_body
  rw [Connection.run] at hr
  rw [hr]
  cases Connection.contents fs c with
  | none   => rfl
  | some _ => rfl

theorem rescan_completed_iff : (rescan digest ws testDirs spots scip blocked error c).2 = true ↔
    UniqueKeys (rescanRows digest ws testDirs) ∧ SpotsFit spots c ∧ blocked = false := by
  rw [← contents_isSome c scip, rescan, run_commit]
  cases Connection.contents (rescanStatements digest ws testDirs spots scip blocked) c with
  | none   => simp
  | some _ => simp

-- On the tables of the map the transaction is the one of `ProjectMap.rescan`.
theorem rescan_map (h : (rescan digest ws testDirs spots scip blocked error c).2 = true) :
    ProjectMap.rescan (rescanIndex digest ws testDirs spots) c.map =
      .ok (rescan digest ws testDirs spots scip blocked error c).1.map := by
  rw [rescan, run_commit] at h ⊢
  cases hc : Connection.contents (rescanStatements digest ws testDirs spots scip blocked) c with
  | none    => rw [hc] at h; cases h
  | some c' =>
    simp only [Connection.contents, rescanStatements, List.foldlM_cons, List.foldlM_nil] at hc
    obtain ⟨c₁, h₁, hc⟩ := Option.bind_eq_some_iff.mp hc
    obtain ⟨c₂, h₂, hc⟩ := Option.bind_eq_some_iff.mp hc
    obtain ⟨c₃, h₃, hc⟩ := Option.bind_eq_some_iff.mp hc
    obtain ⟨c₄, h₄, hc⟩ := Option.bind_eq_some_iff.mp hc
    obtain ⟨c₅, h₅, hc⟩ := Option.bind_eq_some_iff.mp hc
    cases h₁
    cases h₃
    obtain rfl : c₄ = c₅ := by
      cases blocked with
      | true  => cases h₅
      | false => exact Option.some.inj h₅
    cases hc
    obtain ⟨map, hm, rfl⟩ := Option.map_eq_some_iff.mp h₂
    obtain ⟨map', hm', rfl⟩ := Option.map_eq_some_iff.mp h₄
    rw [ProjectMap.rescan]
    refine Except.bind_eq_ok_iff.mpr ⟨map', ?_, rfl⟩
    exact Except.bind_eq_ok_iff.mpr ⟨map, Except.toOption_eq_some_iff.mp hm, Except.toOption_eq_some_iff.mp hm'⟩

-- A rescan that fails leaves what was there before it, and the status of the map.
theorem rescan_failed (h : (rescan digest ws testDirs spots scip blocked error c).2 = false) :
    (rescan digest ws testDirs spots scip blocked error c).1 =
      { c with map := ProjectMap.rescanFailed error c.map } := by
  rw [rescan, run_commit] at h ⊢
  cases hc : Connection.contents (rescanStatements digest ws testDirs spots scip blocked) c with
  | some _ => rw [hc] at h; cases h
  | none   => simp only [Option.map_none, Connection.rollback_durable, Connection.interrupted_body]

theorem refreshRows_nil : refreshRows digest ws testDirs [] = [] := by
  simp [refreshRows, refreshEntities, scanPaths, byPath, SortBy.sortBy, Assoc.dict, filePathsOf, runIndexer,
    applyTestClassification]

-- Without blind spots a refresh raises exactly when its insertion does.
theorem refreshCodePaths_ok_iff {fileId : String → String} {paths : List String} :
    (∃ db', ProjectMap.refreshCodePaths fileId paths (refreshIndex digest ws testDirs db paths) db = .ok db') ↔
      ∃ db', refreshed digest ws testDirs db paths = .ok db' := by
  have hreindex : (∃ db', db.reindex paths (refreshIndex digest ws testDirs db paths) = .ok db') ↔
      ∃ db', refreshed digest ws testDirs db paths = .ok db' := by
    simp only [Db.reindex, refreshIndex, refreshed]
    by_cases hp : db.parsePaths paths = []
    case pos => simp [hp, refreshRows_nil, pure, Except.pure, bind, Except.bind]
    case neg =>
      simp only [if_neg hp]
      rw [exists_bind]
      constructor
      · rintro ⟨db', h, _⟩
        exact ⟨db', h⟩
      · rintro ⟨db', h⟩
        exact ⟨db', h, _, rfl⟩
  rw [← hreindex, ProjectMap.refreshCodePaths, exists_bind]
  constructor
  · rintro ⟨db', h, _⟩
    exact ⟨db', h⟩
  · rintro ⟨db', h⟩
    exact ⟨db', h, _, rfl⟩

-- A batch with new paths inserts them in the same way.
theorem applyCodeChangedBatch_refreshed {fileId : String → String} {messages : List (String × List String)}
    {paths : List String} {r : ProjectMap.Db × List String}
    (hp : ProjectMap.changedPaths messages db = .ok paths) (hne : paths ≠ [])
    (h : ProjectMap.applyCodeChangedBatch fileId messages (refreshIndex digest ws testDirs db paths) db = .ok r) :
    ∃ db', refreshed digest ws testDirs db paths = .ok db' := by
  rw [ProjectMap.applyCodeChangedBatch, hp] at h
  obtain ⟨_, hn, h⟩ := Except.bind_eq_ok_iff.mp h
  cases hn
  rw [if_neg hne] at h
  obtain ⟨db', hr, _⟩ := Except.bind_eq_ok_iff.mp h
  exact refreshCodePaths_ok_iff.mp ⟨db', hr⟩

end Rescan

section Main

theorem plain_rescan {digest : String → String} {ws : Workspace} {testDirs : List String}
    (hc : ∀ path ∈ scannedPaths (scanEntities digest ws), ':' ∉ path.toList) :
    Plain (rescanDefinitions digest ws testDirs) (scannedPaths (scanEntities digest ws)) := by
  have hm {e : Scanned} (he : e.source.rel ∈ filePathsOf (scanEntities digest ws)) : ':' ∉ e.source.rel.toList := by
    obtain ⟨e', he', hr⟩ := List.mem_map.mp he
    rw [← hr]
    exact hc _ (List.mem_map_of_mem (List.mem_filter.mp he').1)
  refine ⟨fun d hd => ?_, fun d hd => ?_, hc⟩
  · obtain ⟨e, he, rfl⟩ := List.mem_map.mp hd
    exact (isSymbol_run he).2.2.2
  · obtain ⟨e, he, rfl⟩ := List.mem_map.mp hd
    exact hm (isSymbol_run he).1

namespace Sample

def node (name : String) : Named where
  name  := some name
  range := ⟨1, 1, 0, 0⟩

-- A module that defines one function twice
def twice : Workspace where
  nodes             := [("a.py", .file)]
  parsePython _     := some [.function (node "f") false, .function (node "f") false]
  parseTypescript _ := none
  distinct          := by decide

-- A module that defines a function and a class of one name
def both : Workspace where
  nodes             := [("a.py", .file)]
  parsePython _     := some [.function (node "f") false, .class (node "f") false none]
  parseTypescript _ := none
  distinct          := by decide

def content : Content where
  map         := ProjectMap.Db.empty "project" fun _ => "hash"
  relations   := .empty
  symbols     := .empty
  occurrences := []

def scip : Scip where
  symbols     := []
  occurrences := []
  relations   := []

example : rescanDefinitions id twice [] = [⟨.function, "a.py", some "f"⟩, ⟨.function, "a.py", some "f"⟩] := by decide

end Sample

end Main
end CodeMap
