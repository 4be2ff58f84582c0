import BridleModel.ProjectMap.Synthesis
import BridleModel.ProjectMap.Theorems.Interfaces
import BridleModel.Python.Path
import BridleModel.Python.Value

open Except

namespace ProjectMap

-- Where a workset finds the mock of an interface.
section MockPath

variable {cs : List Char} {value : String} {e : ModuleEdge} {b : Bool}

theorem slugChar_of_mem_replaceRuns {c : Char} (h : c ∈ replaceRuns b cs) : slugChar c = true := by
  induction cs generalizing b with
  | nil          => exact absurd h (by simp [replaceRuns])
  | cons d cs hi =>
    rw [replaceRuns] at h
    split at h
    case isTrue hd =>
      cases List.mem_cons.mp h with
      | inl h => exact h ▸ hd
      | inr h => exact hi h
    case isFalse =>
      split at h
      case isTrue  => exact hi h
      case isFalse =>
        cases List.mem_cons.mp h with
        | inl h => exact h ▸ rfl
        | inr h => exact hi h

theorem slugChar_of_mem_safeSlug {c : Char} (h : c ∈ (safeSlug value).toList) : slugChar c = true := by
  rw [safeSlug] at h
  split at h
  case isTrue =>
    revert c
    simp [slugChar]
  case isFalse =>
    rw [String.toList_ofList] at h
    have hm := List.mem_of_mem_take h
    have hm := (List.rdropWhile_prefix _ _).subset hm
    exact slugChar_of_mem_replaceRuns ((List.dropWhile_sublist _).subset hm)

theorem slugChar_ne_slash {c : Char} (h : slugChar c = true) : c ≠ '/' ∧ c ≠ '\\' := by
  constructor <;> (rintro rfl; revert h; decide)

-- The name of a mock file
def ModuleEdge.mockName (e : ModuleEdge) : List Char :=
  (safeSlug e.sourceModule ++ "__to__" ++ safeSlug e.targetModule ++ "__" ++ safeSlug e.symbol).toList ++ ".json".toList

theorem ModuleEdge.toList_mockPath : e.mockPath.toList =
    ['/'].intercalate [".bridle".toList, "semantic-map".toList, "mocks".toList, e.mockName] := by
  simp [ModuleEdge.mockPath, mockDirectory, ModuleEdge.mockName, List.intercalate]

theorem ModuleEdge.slugChar_of_mem_mockName {c : Char} (h : c ∈ e.mockName) : slugChar c = true := by
  have hlit {s : String} (hs : ∀ c ∈ s.toList, slugChar c = true) (hc : c ∈ s.toList) := hs c hc
  simp only [ModuleEdge.mockName, String.toList_append, List.mem_append] at h
  obtain (((((h | h) | h) | h) | h) | h) := h
  · exact slugChar_of_mem_safeSlug h
  · exact hlit (by simp [slugChar]) h
  · exact slugChar_of_mem_safeSlug h
  · exact hlit (by simp [slugChar]) h
  · exact slugChar_of_mem_safeSlug h
  · exact hlit (by simp [slugChar]) h

theorem ModuleEdge.mockName_name : Python.Name e.mockName := by
  have hl : 5 ≤ e.mockName.length := by
    rw [ModuleEdge.mockName, List.length_append]
    exact Nat.le_add_left 5 _
  refine ⟨?_, ?_, ?_, fun h => (slugChar_ne_slash (slugChar_of_mem_mockName h)).1 rfl⟩
  all_goals
    intro h
    rw [h] at hl
    exact absurd hl (by decide)

theorem ModuleEdge.splitOn_mockPath : e.mockPath.toList.splitOn '/' =
    [".bridle".toList, "semantic-map".toList, "mocks".toList, e.mockName] := by
  rw [toList_mockPath]
  refine List.splitOn_intercalate '/' ?_ (List.cons_ne_nil _ _)
  simp only [List.forall_mem_cons]
  exact ⟨by decide, by decide, by decide, mockName_name.slash, fun _ h => absurd h List.not_mem_nil⟩

theorem ModuleEdge.mockPath_eq : e.mockPath.toList = mockDirectory.toList ++ e.mockName := by
  simp [ModuleEdge.mockPath, ModuleEdge.mockName]

theorem ModuleEdge.backslash_not_mem : '\\' ∉ e.mockPath.toList := by
  intro h
  rw [mockPath_eq] at h
  cases List.mem_append.mp h with
  | inl h => exact absurd h (by decide)
  | inr h => exact (slugChar_ne_slash (slugChar_of_mem_mockName h)).2 rfl

theorem ModuleEdge.strip_mockPath : Python.strip e.mockPath = e.mockPath := by
  refine Python.strip_eq_self ?_ ?_
  · rw [toList_mockPath]
    exact rfl
  · rw [ModuleEdge.mockPath, String.toList_append, List.getLast?_append]
    exact rfl

-- The path of a mock is the one under which a workset looks for it.
theorem ModuleEdge.normalize_mockPath : Container.normalize e.mockPath = some e.mockPath := by
  have hb := backslash_not_mem (e := e)
  have hmap : (e.mockPath.toList.map fun c => if c = '\\' then '/' else c) = e.mockPath.toList := by
    refine (List.map_congr_left fun c hc => if_neg ?_).trans (List.map_id _)
    rintro rfl
    exact hb hc
  have hd : Container.dropCurrent e.mockPath.toList = e.mockPath.toList := by
    rw [toList_mockPath]
    rfl
  have hn : Container.normalizeWorkspaceRelative e.mockPath = e.mockPath := by
    rw [Container.normalizeWorkspaceRelative, strip_mockPath, hd, splitOn_mockPath, List.filter_eq_self.mpr,
      ← toList_mockPath, String.ofList_toList]
    simp only [List.forall_mem_cons]
    refine ⟨by decide, by decide, by decide, ?_, fun _ h => absurd h List.not_mem_nil⟩
    simp [mockName_name.nonempty, mockName_name.current]
  have hparent : ['.', '.'] ∉ e.mockPath.toList.splitOn '/' := by
    rw [splitOn_mockPath]
    simp only [List.mem_cons, List.not_mem_nil, or_false, not_or]
    exact ⟨by decide, by decide, by decide, mockName_name.parent.symm⟩
  obtain ⟨cs, hcs⟩ : ∃ cs, e.mockPath.toList = '.' :: 'b' :: cs := ⟨_, toList_mockPath⟩
  have hraw : ¬(e.mockPath.toList = [] ∨ e.mockPath.toList.head? = some '/' ∨ e.mockPath.toList[1]? = some ':' ∨
      '\\' ∈ e.mockPath.toList) := by
    simp only [hb, or_false]
    rw [hcs]
    simp
  have hne : e.mockPath ≠ "" := by
    intro h
    rw [h] at hcs
    cases hcs
  rw [Container.normalize, strip_mockPath, hmap, if_neg hraw, if_neg hparent, hn, Option.filter_some,
    if_pos (by simpa using hne)]

end MockPath

namespace SemanticMap

-- The rows that a refresh leaves.
section Rows

variable {db db' : SemanticMap} {row : InterfaceCandidate} {c : InterfaceSketch} {cs : List InterfaceSketch}
  {prior : Option InterfaceCandidate} {priors : InterfaceSketch → Option InterfaceCandidate} {id reason : String}
  {generated : Synthesis}

variable (db c prior) in
theorem insertInterface_interfaces : ∃ row, (db.insertInterface prior c).interfaces = db.interfaces.replace row ∧
    row.toInterfaceSketch = c ∧ (row.status.live = true → ∀ p ∈ prior, p.status ≠ .rejected) := by
  let status := ((prior.map (·.status)).filter (·.decided)).getD .candidate
  refine ⟨{ c with status, confirmedAt := if status = .confirmed then prior.bind (·.confirmedAt) else none },
    ?_, rfl, fun hl p hp hr => ?_⟩
  · rw [insertInterface]
    split
    case isTrue  => exact publish_interfaces
    case isFalse => rfl
  · cases hp
    simp [status, hr, CandidateStatus.decided, CandidateStatus.live, Option.filter_some] at hl

-- The row of the last candidate with its id
theorem mem_foldl_insertInterface (h : row ∈ (cs.foldl (fun t c => t.insertInterface (priors c) c) db).interfaces) :
    row ∈ db.interfaces ∨ ∃ before after, cs = before ++ row.toInterfaceSketch :: after ∧
      (∀ d ∈ after, d.id ≠ row.id) ∧
      (row.status.live = true → ∀ p ∈ priors row.toInterfaceSketch, p.status ≠ .rejected) := by
  induction cs using List.reverseRecOn with
  | nil                     => exact .inl h
  | append_singleton cs c hi =>
    rw [List.foldl_append, List.foldl_cons, List.foldl_nil] at h
    obtain ⟨r, hr, hs, hl⟩ := insertInterface_interfaces (cs.foldl (fun t c => t.insertInterface (priors c) c) db)
      c (priors c)
    rw [hr] at h
    cases mem_replace_interface.mp h with
    | inr h =>
      subst h hs
      exact .inr ⟨cs, [], rfl, fun _ h => absurd h List.not_mem_nil, hl⟩
    | inl h =>
      cases hi h.1 with
      | inl h => exact .inl h
      | inr h' =>
        obtain ⟨before, after, rfl, hafter, hlive⟩ := h'
        refine .inr ⟨before, after ++ [c], by simp, fun d hd => ?_, hlive⟩
        cases List.mem_append.mp hd with
        | inl hd => exact hafter d hd
        | inr hd => exact List.mem_singleton.mp hd ▸ hs ▸ Ne.symm h.2

theorem exists_foldl_insertInterface (h : (∃ r ∈ db.interfaces, r.id = id) ∨ ∃ c ∈ cs, c.id = id) :
    ∃ r ∈ (cs.foldl (fun t c => t.insertInterface (priors c) c) db).interfaces, r.id = id := by
  induction cs generalizing db with
  | nil          =>
    cases h with
    | inl h => exact h
    | inr h => simp at h
  | cons c cs hi =>
    obtain ⟨row, hr, hs, _⟩ := insertInterface_interfaces db c (priors c)
    refine hi ?_
    rw [hr]
    have hnew : row.id = id → ∃ r ∈ db.interfaces.replace row, r.id = id :=
      fun he => ⟨row, mem_replace_interface.mpr (.inr rfl), he⟩
    cases h with
    | inr h =>
      obtain ⟨d, hd, he⟩ := h
      cases List.mem_cons.mp hd with
      | inl h => exact .inl (hnew (hs ▸ h ▸ he))
      | inr h => exact .inr ⟨d, h, he⟩
    | inl h =>
      obtain ⟨r, hm, he⟩ := h
      by_cases hid : r.id = row.id
      case pos => exact .inl (hnew (hid ▸ he))
      case neg => exact .inl ⟨r, mem_replace_interface.mpr (.inl ⟨hm, hid⟩), he⟩

theorem insertArtifacts_ok {as : List ArtifactSketch}
    (h : ∀ a ∈ as, ∃ r ∈ db.interfaces, r.id = a.interfaceCandidateId) :
    ∃ db', as.foldlM insertArtifact db = .ok db' := by
  induction as generalizing db with
  | nil          => exact ⟨db, rfl⟩
  | cons a as hi =>
    obtain ⟨r, hr, he⟩ := h a List.mem_cons_self
    have hl : db.interfaces.lookup a.interfaceCandidateId = some r :=
      Table.lookup_eq_some_iff.mpr ⟨hr, List.mem_singleton.mpr he.symm⟩
    have ha : ∃ db₁, db.insertArtifact a = .ok db₁ ∧ db₁.interfaces = db.interfaces := by
      rw [insertArtifact, hl]
      exact ⟨_, rfl, rfl⟩
    obtain ⟨db₁, h₁, hs⟩ := ha
    have hrest : ∀ b ∈ as, ∃ r ∈ db₁.interfaces, r.id = b.interfaceCandidateId :=
      fun b hb => hs ▸ h b (List.mem_cons_of_mem _ hb)
    obtain ⟨db', h'⟩ := hi hrest
    exact ⟨db', by rw [List.foldlM_cons, h₁]; exact h'⟩

-- A refresh completes when each of its artifacts has its candidate.
theorem refresh_ok (h : ∀ a ∈ generated.artifacts, ∃ c ∈ generated.interfaces, c.id = a.interfaceCandidateId) :
    ∃ db', refreshSemanticMapCandidates generated reason db = .ok db' := by
  rw [refreshSemanticMapCandidates]
  let inserted := generated.interfaces.foldl (fun t c => t.insertInterface (db.priorInterface c) c)
    (generated.modules.foldl (fun t c => t.insertModule (db.priorModule c) c) db.markStale)
  have ha : ∀ a ∈ generated.artifacts, ∃ r ∈ inserted.interfaces, r.id = a.interfaceCandidateId :=
    fun a ha => exists_foldl_insertInterface (.inr (h a ha))
  obtain ⟨db', h'⟩ := insertArtifacts_ok ha
  exact ⟨_, bind_eq_ok_iff.mpr ⟨db', h', rfl⟩⟩

theorem markStale_live (h : row ∈ db.markStale.interfaces) : row.status.live = false := by
  obtain ⟨r, _, he⟩ := List.mem_map.mp h
  split at he
  case isTrue       => exact he ▸ rfl
  case isFalse live => exact he ▸ by simpa using live

theorem markStale_sketch (h : row ∈ db.markStale.interfaces) :
    ∃ r ∈ db.interfaces, r.toInterfaceSketch = row.toInterfaceSketch := by
  obtain ⟨r, hr, he⟩ := List.mem_map.mp h
  refine ⟨r, hr, ?_⟩
  split at he
  case isTrue  => exact he ▸ rfl
  case isFalse => exact he ▸ rfl

-- A row is current after a refresh when the last candidate with its id was not rejected before.
theorem mem_refresh (h : refreshSemanticMapCandidates generated reason db = .ok db') (hr : row ∈ db'.interfaces) :
    (row.status.live = false ∧ ∃ r ∈ db.interfaces, r.toInterfaceSketch = row.toInterfaceSketch) ∨
      ∃ before after, generated.interfaces = before ++ row.toInterfaceSketch :: after ∧
        (∀ d ∈ after, d.id ≠ row.id) ∧
        (row.status.live = true → ∀ p ∈ db.priorInterface row.toInterfaceSketch, p.status ≠ .rejected) := by
  have hf := (@insertModules_frame db.markStale db.priorModule generated.modules).1
  rw [(refresh_rows h).1] at hr
  cases mem_foldl_insertInterface hr with
  | inr hr => exact .inr hr
  | inl hr =>
    rw [hf] at hr
    exact .inl ⟨markStale_live hr, markStale_sketch hr⟩

end Rows
end SemanticMap

section Text

variable {sha256 : String → String} {e e' : ModuleEdge}

theorem ModuleEdge.distinct_mockPayload : Json.Distinct (e.mockPayload sha256) := by
  refine ⟨by simp, ?_⟩
  simp [Json.DistinctFields, Json.Distinct, ModuleEdge.signature, Json.distinctItems_iff, EdgeRelation.json]

-- A mock names its candidate.
theorem ModuleEdge.candidateId_eq (h : e.mockText sha256 = e'.mockText sha256) :
    e.candidateId sha256 = e'.candidateId sha256 := by
  have hc := Json.dumpsIndent_injective ((String.append_left_inj _).mp h)
  have hg := Json.Dict.get_str_of_canonical "interface_candidate_id" e.distinct_mockPayload e'.distinct_mockPayload
    hc rfl
  exact Json.str.inj (Option.some.inj hg)

end Text

namespace MockWorld

section Steps

variable {sha256 : String → String} {w : MockWorld} {s : Structure} {a : Action} {db' : SemanticMap}

-- In a refresh, no mock of a candidate that becomes current is written over by one that follows.
def Apart (sha256 : String → String) (w : MockWorld) (s : Structure) : Prop :=
  ∀ before e after, s.imports sha256 (w.contentHash sha256) = before ++ e :: after →
    (∀ d ∈ after, d.candidateId sha256 ≠ e.candidateId sha256) →
    (∀ p ∈ w.map.priorInterface (e.interfaceCandidate sha256), p.status ≠ .rejected) →
    ∀ d ∈ after, d.mockPath ≠ e.mockPath

-- What these edges leave in the file of a current candidate has the hash of its mock.
def Same (sha256 : String → String) (w : MockWorld) (edges : List ModuleEdge) : Prop :=
  ∀ row ∈ w.map.interfaces, row.status.live = true → ∀ before e after, edges = before ++ e :: after →
    (∀ d ∈ after, d.mockPath ≠ e.mockPath) → e.mockPath = row.mockFilePath → sha256 (e.mockText sha256) = row.mockHash

def Admitted (sha256 : String → String) (w : MockWorld) : Action → Prop
  | .refresh s _ _        => Apart sha256 w s
  | .rolledBack s written => Same sha256 w ((s.imports sha256 (w.contentHash sha256)).take written)
  | .edit path _          => ¬mockDirectory.toList <+: path.toList
  | _                     => True

structure Matched (sha256 : String → String) (w : MockWorld) : Prop where
  generated : ∀ row ∈ w.map.interfaces, ∃ e : ModuleEdge, row.toInterfaceSketch = e.interfaceCandidate sha256
  stored    : ∀ row ∈ w.map.interfaces, row.status.live = true →
    ∃ text, w.files row.mockFilePath = some text ∧ sha256 text = row.mockHash
  apart     : ∀ row ∈ w.map.interfaces, ∀ row' ∈ w.map.interfaces, row.status.live = true →
    row'.status.live = true → row.mockFilePath = row'.mockFilePath → row.id = row'.id

theorem split_interfaces {edges : List ModuleEdge} {before after : List InterfaceSketch} {c : InterfaceSketch}
    (h : edges.map (·.interfaceCandidate sha256) = before ++ c :: after) :
    ∃ before' e after', edges = before' ++ e :: after' ∧ e.interfaceCandidate sha256 = c ∧
      after = after'.map (·.interfaceCandidate sha256) := by
  obtain ⟨before', rest, rfl, -, hr⟩ := List.map_eq_append_iff.mp h
  obtain ⟨e, after', rfl, hc, ha⟩ := List.map_eq_cons_iff.mp hr
  exact ⟨before', e, after', rfl, hc, ha.symm⟩

theorem refresh_artifacts {hash : String → String} {runId : String} :
    ∀ a ∈ (synthesize sha256 hash s runId).artifacts, ∃ c ∈ (synthesize sha256 hash s runId).interfaces,
      c.id = a.interfaceCandidateId := by
  intro a ha
  obtain ⟨e, he, rfl⟩ := List.mem_map.mp ha
  exact ⟨_, List.mem_map_of_mem he, rfl⟩

theorem Matched.refresh (h : w.Matched sha256) (ha : Apart sha256 w s) {runId reason : String} :
    Matched sha256 (w.act sha256 (.refresh s runId reason)) := by
  let hash := w.contentHash sha256
  have hok : ∃ db', refreshSemanticMapCandidates (synthesize sha256 hash s runId) reason w.map = .ok db' :=
    SemanticMap.refresh_ok refresh_artifacts
  obtain ⟨db', hdb⟩ := hok
  have hact : w.act sha256 (.refresh s runId reason) =
      { map := db', files := writeMocks sha256 (s.imports sha256 hash) w.files } := by
    simp only [act, SemanticMap.call]
    rw [hdb]
    rfl
  -- The edge of a row that is current now
  have hlive {row : InterfaceCandidate} (hr : row ∈ db'.interfaces) (hl : row.status.live = true) :
      ∃ before e after, s.imports sha256 hash = before ++ e :: after ∧
        row.toInterfaceSketch = e.interfaceCandidate sha256 ∧ ∀ d ∈ after, d.mockPath ≠ e.mockPath := by
    cases SemanticMap.mem_refresh hdb hr with
    | inl hn => rw [hn.1] at hl; cases hl
    | inr hs =>
      obtain ⟨before, after, hsplit, hids, hp⟩ := hs
      obtain ⟨before', e, after', hedges, he, rfl⟩ := split_interfaces hsplit
      refine ⟨before', e, after', hedges, he.symm, ha before' e after' hedges (fun d hd => ?_) ?_⟩
      · have hid := hids _ (List.mem_map_of_mem hd)
        rw [congrArg InterfaceSketch.id he.symm] at hid
        exact hid
      · rw [he]
        exact hp hl
  rw [hact]
  constructor
  case generated =>
    intro row hr
    cases SemanticMap.mem_refresh hdb hr with
    | inl hn =>
      obtain ⟨r, hr, hs⟩ := hn.2
      obtain ⟨e, he⟩ := h.generated r hr
      exact ⟨e, hs.symm.trans he⟩
    | inr hs =>
      obtain ⟨before, after, hsplit, -, -⟩ := hs
      obtain ⟨_, e, _, _, he, _⟩ := split_interfaces hsplit
      exact ⟨e, he.symm⟩
  case stored =>
    intro row hr hl
    obtain ⟨before, e, after, hedges, he, hn⟩ := hlive hr hl
    refine ⟨e.mockText sha256, ?_, ?_⟩
    · rw [he, hedges]
      exact Updates.updates_last hn
    · rw [he]
      rfl
  case apart =>
    intro row hr row' hr' hl hl' hp
    obtain ⟨before, e, after, hedges, he, hn⟩ := hlive hr hl
    obtain ⟨before', e', after', hedges', he', hn'⟩ := hlive hr' hl'
    have hpath : e.mockPath = e'.mockPath := by
      rw [he, he'] at hp
      exact hp
    obtain (hm | hm | rfl) := Updates.split_cases (hedges.symm.trans hedges')
    · exact absurd hpath.symm (hn e' hm)
    · exact absurd hpath (hn' e hm)
    · rw [he, he']

theorem Matched.writes (h : w.Matched sha256) {edges : List ModuleEdge} (hs : Same sha256 w edges) :
    Matched sha256 { w with files := writeMocks sha256 edges w.files } where
  generated := h.generated
  stored    := by
    intro row hr hl
    cases Updates.exists_last (fun e : ModuleEdge => e.mockPath = row.mockFilePath) edges with
    | inl hn =>
      obtain ⟨text, hf, ht⟩ := h.stored row hr hl
      exact ⟨text, (Updates.updates_of_forall_ne hn).trans hf, ht⟩
    | inr hl' =>
      obtain ⟨before, e, after, rfl, he, hn⟩ := hl'
      have hn' : ∀ d ∈ after, d.mockPath ≠ e.mockPath := fun d hd hde => hn d hd (hde.trans he)
      refine ⟨e.mockText sha256, ?_, hs row hr hl before e after rfl hn' he⟩
      rw [← he]
      exact Updates.updates_last hn'
  apart     := h.apart

theorem Matched.edit (h : w.Matched sha256) {path : String} {content : Option String}
    (hp : ¬mockDirectory.toList <+: path.toList) :
    Matched sha256 { w with files := Function.update w.files path content } where
  generated := h.generated
  stored    := by
    intro row hr hl
    obtain ⟨text, hf, ht⟩ := h.stored row hr hl
    obtain ⟨e, he⟩ := h.generated row hr
    have hpath : row.mockFilePath = e.mockPath := congrArg InterfaceSketch.mockFilePath he
    have hne : row.mockFilePath ≠ path := by
      rintro rfl
      refine hp ?_
      rw [hpath, ModuleEdge.mockPath_eq]
      exact List.prefix_append _ _
    have hf' : Function.update w.files path content row.mockFilePath = some text := by
      rw [Function.update_of_ne hne]
      exact hf
    exact ⟨text, hf', ht⟩
  apart     := h.apart

theorem setInterface_hash {contentHash : String → String} {candidateId status actor now : String} {db : SemanticMap}
    {row : InterfaceCandidate} (h : setModuleInterfaceCandidateStatus contentHash candidateId status actor now db = .ok db')
    (hd : CandidateStatus.ofString? status = some .confirmed) (hr : row ∈ db.interfaces) (hid : row.id = candidateId) :
    contentHash row.mockFilePath ≠ "" ∧ contentHash row.mockFilePath = row.mockHash := by
  have hl : db.interfaces.lookup candidateId = some row :=
    Table.lookup_eq_some_iff.mpr ⟨hr, List.mem_singleton.mpr hid.symm⟩
  rw [setModuleInterfaceCandidateStatus] at h
  simp only [hd, hl] at h
  obtain ⟨_, hn, _⟩ := bind_eq_ok_iff.mp h
  have hn := raiseIf_eq_ok_iff.mp hn
  simp only [true_and, not_or, ne_eq, not_not] at hn
  exact hn

theorem contentHash_eq {path : String} (hn : w.contentHash sha256 path ≠ "") :
    ∃ text, w.files path = some text ∧ sha256 text = w.contentHash sha256 path := by
  cases hf : w.files path with
  | none      => simp [contentHash, hf] at hn
  | some text => exact ⟨text, rfl, by simp [contentHash, hf]⟩

theorem Matched.decided (injective : Function.Injective sha256) (h : w.Matched sha256)
    {candidateId status actor now : String}
    (hs : setModuleInterfaceCandidateStatus (w.contentHash sha256) candidateId status actor now w.map = .ok db') :
    Matched sha256 { w with map := db' } := by
  obtain ⟨row, decided, hd, hid, d⟩ := SemanticMap.setInterface_decides hs
  obtain ⟨confirmedAt, hi⟩ := d.interfaces
  -- The row that is decided on is current only when it is confirmed, and then its hash has been checked.
  have hfound (hl : decided.live = true) :
      ∃ text, w.files row.mockFilePath = some text ∧ sha256 text = row.mockHash := by
    cases decided with
    | confirmed =>
      obtain ⟨hn, he⟩ := setInterface_hash hs hd d.found hid
      exact he ▸ contentHash_eq hn
    | candidate =>
      unfold CandidateStatus.ofString? at hd
      split at hd
      · cases hd
      · cases hd
      · cases hd
    | rejected  => cases hl
    | stale     => cases hl
  have hsame {r : InterfaceCandidate} (hr : r ∈ w.map.interfaces) (hrl : r.status.live = true)
      (hl : decided.live = true) (hp : r.mockFilePath = row.mockFilePath) : r.id = row.id := by
    obtain ⟨text, hf, ht⟩ := h.stored r hr hrl
    obtain ⟨text', hf', ht'⟩ := hfound hl
    obtain ⟨e, he⟩ := h.generated r hr
    obtain ⟨e', he'⟩ := h.generated row d.found
    rw [hp, hf'] at hf
    cases hf
    rw [he] at ht ⊢
    rw [he'] at ht' ⊢
    exact ModuleEdge.candidateId_eq (injective (ht.symm.trans ht'))
  constructor
  case generated =>
    intro r hr
    cases (hi r).mp hr with
    | inl hr => exact h.generated r hr.1
    | inr hr => exact hr ▸ h.generated row d.found
  case stored =>
    intro r hr hl
    cases (hi r).mp hr with
    | inl hr => exact h.stored r hr.1 hl
    | inr hr =>
      subst hr
      exact hfound hl
  case apart =>
    intro r hr r' hr' hl hl' hp
    cases (hi r).mp hr with
    | inl hr =>
      cases (hi r').mp hr' with
      | inl hr' => exact h.apart r hr.1 r' hr'.1 hl hl' hp
      | inr hr' =>
        subst hr'
        exact hsame hr.1 hl hl' hp
    | inr hr =>
      subst hr
      cases (hi r').mp hr' with
      | inl hr' => exact (hsame hr'.1 hl' hl hp.symm).symm
      | inr hr' => exact hr' ▸ rfl

theorem Matched.act (injective : Function.Injective sha256) (h : w.Matched sha256) (ha : Admitted sha256 w a) :
    Matched sha256 (w.act sha256 a) := by
  cases a with
  | refresh s runId reason                  => exact h.refresh ha
  | rolledBack s written                    => exact h.writes ha
  | edit path content                       => exact h.edit ha
  | setModule id status actor now           =>
    simp only [MockWorld.act, SemanticMap.call]
    cases hs : setModuleCandidateStatus id status actor now w.map with
    | error _ => exact h
    | ok db'  =>
      have hf := (SemanticMap.setModule_frame hs).1
      constructor
      · exact fun row hr => h.generated row (hf ▸ hr)
      · exact fun row hr => h.stored row (hf ▸ hr)
      · exact fun row hr row' hr' => h.apart row (hf ▸ hr) row' (hf ▸ hr')
  | setInterface id status actor now        =>
    simp only [MockWorld.act, SemanticMap.call]
    cases hs : setModuleInterfaceCandidateStatus (w.contentHash sha256) id status actor now w.map with
    | error _ => exact h
    | ok db'  => exact h.decided injective hs

end Steps

section Main

variable {sha256 : String → String} {w w₀ : MockWorld} {actions : List Action}

-- What a workset says of a confirmed interface
def Confirms (w : MockWorld) (mock : Container.MapInterfaceMock) : Prop :=
  ∃ row ∈ w.map.interfaces, row.status = .confirmed ∧ mock.filePath = row.interface.mock.filePath ∧
    mock.mockHash = row.interface.mock.mockHash

theorem Matched.resolveMock (h : w.Matched sha256) {moduleId : String} {mock : Container.MapInterfaceMock}
    (hm : w.Confirms mock) : ∃ entry, Container.resolveMock sha256 w.files moduleId mock = .ok entry := by
  obtain ⟨row, hr, hs, hp, hh⟩ := hm
  obtain ⟨text, hf, ht⟩ := h.stored row hr (by simp [hs, CandidateStatus.live])
  obtain ⟨e, he⟩ := h.generated row hr
  have hpath : row.mockFilePath = e.mockPath := congrArg InterfaceSketch.mockFilePath he
  have hn : Container.normalize mock.filePath = some row.mockFilePath := by
    rw [hp, hpath]
    exact (congrArg Container.normalize hpath).trans ModuleEdge.normalize_mockPath
  have hhash : mock.mockHash = sha256 text := hh.trans ht.symm
  rw [Container.resolveMock, hn]
  simp only [hf, hhash, ne_eq, not_true, and_false, if_false]
  exact ⟨_, rfl⟩

theorem reason_of_resolveFile {files : Container.Files} {moduleId rel invalid missing : String}
    {kind : Container.WorksetKind} {error : Container.WorksetError}
    (h : Container.resolveFile files moduleId kind invalid missing rel = .error error) :
    error.reason = invalid ∨ error.reason = missing := by
  rw [Container.resolveFile] at h
  split at h
  case h_1 => cases h; exact .inl rfl
  case h_2 =>
    split at h
    case isTrue  => cases h
    case isFalse => cases h; exact .inr rfl

-- A workset is not refused for the mocks of confirmed interfaces.
theorem Matched.resolve (h : w.Matched sha256) {workset : Container.MapWorksetInput} {error : Container.WorksetError}
    (hm : ∀ mock ∈ workset.interfaceMocks, w.Confirms mock)
    (he : Container.resolve sha256 w.files workset = .error error) :
    error.reason ≠ "missing_interface_mock" ∧ error.reason ≠ "mock_hash_mismatch" := by
  have hfile {kind : Container.WorksetKind} {invalid missing : String} {rels : List String}
      (hr : rels.mapM (Container.resolveFile w.files workset.moduleId kind invalid missing) = .error error) :
      error.reason = invalid ∨ error.reason = missing := by
    obtain ⟨rel, _, hrel⟩ := exists_of_mapM hr
    exact reason_of_resolveFile hrel
  rw [Container.resolve] at he
  cases bind_eq_error_iff.mp he with
  | inl he => obtain (hr | hr) := hfile he <;> simp [hr]
  | inr he =>
    obtain ⟨_, _, he⟩ := he
    cases bind_eq_error_iff.mp he with
    | inl he => obtain (hr | hr) := hfile he <;> simp [hr]
    | inr he =>
      obtain ⟨_, _, he⟩ := he
      cases bind_eq_error_iff.mp he with
      | inl he =>
        obtain ⟨mock, hmock, hr⟩ := exists_of_mapM he
        obtain ⟨entry, ho⟩ := h.resolveMock (hm mock hmock)
        rw [ho] at hr
        cases hr
      | inr he =>
        obtain ⟨_, _, he⟩ := he
        cases bind_eq_error_iff.mp he with
        | inl he => obtain (hr | hr) := hfile he <;> simp [hr]
        | inr he =>
          obtain ⟨_, _, he⟩ := he
          cases he

theorem Matched.init (h : w.map = .empty) : w.Matched sha256 := by
  constructor
  · exact fun row hr => absurd (h ▸ hr) Table.not_mem_empty
  · exact fun row hr => absurd (h ▸ hr) Table.not_mem_empty
  · exact fun row hr => absurd (h ▸ hr) Table.not_mem_empty

theorem mocks_match (injective : Function.Injective sha256) (init : (mockSystem sha256).init w₀)
    (admitted : ∀ {w₁ a w₂}, (mockSystem sha256).Occurs w₀ actions w₁ a w₂ → Admitted sha256 w₁ a)
    (run : (mockSystem sha256).run w₀ actions = some w) :
    (∀ row ∈ w.map.interfaces, row.status.live = true →
      ∃ text, w.files row.mockFilePath = some text ∧ sha256 text = row.mockHash) ∧
    (∀ row ∈ w.map.interfaces, ∀ row' ∈ w.map.interfaces, row.status.live = true → row'.status.live = true →
      row.id ≠ row'.id → row.mockFilePath ≠ row'.mockFilePath) ∧
    ∀ workset error, (∀ mock ∈ workset.interfaceMocks, w.Confirms mock) →
      Container.resolve sha256 w.files workset = .error error →
      error.reason ≠ "missing_interface_mock" ∧ error.reason ≠ "mock_hash_mismatch" := by
  have h : w.Matched sha256 := by
    refine TransitionSystem.Occurs.run_invariant (Matched.init init) (fun {w₁ a w₂} ho h => ?_) run
    have hs : w₁.act sha256 a = w₂ := Option.some.inj ho.step
    exact hs ▸ h.act injective (admitted ho)
  exact ⟨h.stored, fun row hr row' hr' hl hl' hid hp => hid (h.apart row hr row' hr' hl hl' hp),
    fun workset error hm he => h.resolve hm he⟩

end Main

namespace Sample

def sha256 (text : String) : String :=
  "#" ++ text

theorem sha256_injective : Function.Injective sha256 :=
  fun _ _ h => by simpa [sha256] using h

def file (path : String) : CodeMap.EntityRow :=
  ⟨path, path, "file", path, none, []⟩

def imports (rowid : Nat) (source target : String) : CodeMap.RelationRow :=
  ⟨rowid, source, target, "imports", []⟩

def started : MockWorld where
  map     := .empty
  files _ := none

-- Two files of one module import another module.
def first : Structure where
  entities  := [file "a/x.py", file "a/y.py", file "b/z.py"]
  relations := [imports 1 "a/x.py" "b/z.py"]

def both : Structure where
  entities  := first.entities
  relations := [imports 1 "a/x.py" "b/z.py", imports 2 "a/y.py" "b/z.py"]

-- The names of two modules have one slug.
def slugs : Structure where
  entities  := [file "a b/x.py", file "a-b/y.py", file "c/z.py"]
  relations := [imports 1 "a b/x.py" "c/z.py", imports 2 "a-b/y.py" "c/z.py"]

def refresh (s : Structure) : Action :=
  .refresh s "semmap-1" "manual_refresh"

-- A refresh is rolled back after it has written the mock of another relation.
def rolled : MockWorld :=
  (started.act sha256 (refresh first)).act sha256 (.rolledBack both 1)

def clashed : MockWorld :=
  started.act sha256 (refresh slugs)

-- The first property, decided
def stored (w : MockWorld) : Bool :=
  w.map.interfaces.rows.all fun row => !row.status.live || (w.files row.mockFilePath).map sha256 = some row.mockHash

theorem stored_iff {w : MockWorld} : stored w = true ↔ ∀ row ∈ w.map.interfaces, row.status.live = true →
    ∃ text, w.files row.mockFilePath = some text ∧ sha256 text = row.mockHash := by
  rw [stored, List.all_eq_true]
  refine forall₂_congr fun row _ => ?_
  cases hl : row.status.live with
  | false => simp
  | true  => simp

-- The second one
def separate (w : MockWorld) : Bool :=
  w.map.interfaces.rows.all fun row => w.map.interfaces.rows.all fun row' =>
    !row.status.live || !row'.status.live || row.id = row'.id || row.mockFilePath ≠ row'.mockFilePath

theorem separate_iff {w : MockWorld} : separate w = true ↔ ∀ row ∈ w.map.interfaces, ∀ row' ∈ w.map.interfaces,
    row.status.live = true → row'.status.live = true → row.id ≠ row'.id → row.mockFilePath ≠ row'.mockFilePath := by
  simp only [separate, List.all_eq_true]
  refine forall₂_congr fun row _ => forall₂_congr fun row' _ => ?_
  cases hl : row.status.live with
  | false => simp
  | true  =>
    cases hl' : row'.status.live with
    | false => simp
    | true  =>
      by_cases hid : row.id = row'.id
      case pos => simp [hid]
      case neg => simp [hid]

end Sample

theorem mocks_match_first :
    let w := Sample.started.act Sample.sha256 (Sample.refresh Sample.first)
    w.map.interfaces.rows.length = 1 ∧ ∀ row ∈ w.map.interfaces, row.status.live = true →
      ∃ text, w.files row.mockFilePath = some text ∧ Sample.sha256 text = row.mockHash := by
  have hi : (Sample.first.imports Sample.sha256 (Sample.started.contentHash Sample.sha256)).length = 1 := by decide
  have hinit : (mockSystem Sample.sha256).init Sample.started := rfl
  have hadmitted : ∀ {w₁ a w₂}, (mockSystem Sample.sha256).Occurs Sample.started [Sample.refresh Sample.first] w₁ a w₂ →
      Admitted Sample.sha256 w₁ a := by
    intro w₁ a w₂ ho
    cases ho.cons with
    | inr h =>
      obtain ⟨_, _, h⟩ := h
      exact absurd h TransitionSystem.Occurs.nil
    | inl h =>
      obtain ⟨rfl, rfl⟩ := h
      intro before e after hs _ _ d hd
      rw [hs, List.length_append, List.length_cons] at hi
      have hnil : after = [] := List.length_eq_zero_iff.mp (by omega)
      exact absurd (hnil ▸ hd) List.not_mem_nil
  exact ⟨by decide, (mocks_match Sample.sha256_injective hinit hadmitted rfl).1⟩

theorem mocks_not_match :
    (¬∀ actions w, (∀ path content, .edit path content ∉ actions) →
      (mockSystem Sample.sha256).run Sample.started actions = some w → ∀ row ∈ w.map.interfaces,
        row.status.live = true → ∃ text, w.files row.mockFilePath = some text ∧ Sample.sha256 text = row.mockHash) ∧
    ¬∀ actions w, (∀ path content, .edit path content ∉ actions) →
      (mockSystem Sample.sha256).run Sample.started actions = some w → ∀ row ∈ w.map.interfaces,
        ∀ row' ∈ w.map.interfaces, row.status.live = true → row'.status.live = true → row.id ≠ row'.id →
        row.mockFilePath ≠ row'.mockFilePath := by
  constructor
  · intro h
    have hs := h [Sample.refresh Sample.first, .rolledBack Sample.both 1] Sample.rolled
      (by simp [Sample.refresh]) rfl
    exact absurd (Sample.stored_iff.mpr hs) (by decide +kernel)
  · intro h
    have hs := h [Sample.refresh Sample.slugs] Sample.clashed (by simp [Sample.refresh]) rfl
    exact absurd (Sample.separate_iff.mpr hs) (by decide +kernel)

end MockWorld
end ProjectMap
