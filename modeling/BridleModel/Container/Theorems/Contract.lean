import BridleModel.Container.Contract
import BridleModel.Plan.Contract

open Python SortBy

namespace Container

section Freeze

variable {r r' : Requirements} {c c' : FrozenContract}

theorem FrozenContract.ext_requirements (h : c.toRequirements = c'.toRequirements) : c = c' := by
  cases c
  cases c'
  cases h
  rfl

theorem freeze_eq_ok_iff : freeze r = .ok c ↔ c.toRequirements = r.normalized := by
  constructor
  · intro h
    rw [freeze] at h
    split at h
    case h_1 => cases h
    case h_2 => rw [← Except.ok.inj h]
  · intro h
    rw [freeze]
    split
    case h_1 hm => rw [← h, c.accepted] at hm; cases hm
    case h_2 => exact congrArg Except.ok (FrozenContract.ext_requirements h.symm)

-- Freezing a frozen contract again changes nothing.
theorem FrozenContract.freeze_self : freeze c.toRequirements = .ok c :=
  freeze_eq_ok_iff.mpr c.normal.symm

theorem freeze_of_normalized (h : freeze r = .ok c) (hn : r'.normalized = r.normalized) : freeze r' = .ok c :=
  freeze_eq_ok_iff.mpr ((freeze_eq_ok_iff.mp h).trans hn.symm)

theorem sortedSet_perm {ids ids' : List String} (h : ids'.Perm ids) : sortedSet ids' = sortedSet ids := by
  refine List.Perm.eq_of_pairwise (fun _ _ _ _ => le_antisymm) (List.pairwise_insertionSort (· ≤ ·) _)
    (List.pairwise_insertionSort (· ≤ ·) _) ?_
  exact (List.perm_insertionSort _ _).trans (h.dedup.trans (List.perm_insertionSort _ _).symm)

namespace Requirements

theorem Separated.normalized_eq (h : r.Separated) (hp : Permutes r' r) : r'.normalized = r.normalized := by
  simp only [normalized, h.testFiles.sortBy_eq hp.testFiles, h.cases.sortBy_eq hp.cases,
    h.commands.sortBy_eq hp.commands, sortedSet_perm hp.expected, hp.baseline, hp.mapSeq, hp.boundary, hp.image]

-- The normal form is one for all orders of the input exactly when the keys of the sorts separate it.
theorem separated_iff : r.Separated ↔ ∀ r', Permutes r' r → r'.normalized = r.normalized := by
  constructor
  · exact fun h _ => h.normalized_eq
  · intro h
    have hr {l : List TestFileSnapshot} {l' : List TestCaseSnapshot} {l'' : List ContractCommand}
        (h₁ : l.Perm r.testFiles) (h₂ : l'.Perm r.cases) (h₃ : l''.Perm r.commands) :
        Permutes { r with testFiles := l, cases := l', commands := l'' } r :=
      ⟨h₁, h₂, h₃, .refl _, rfl, rfl, rfl, rfl⟩
    refine ⟨separates_iff.mpr fun l hl => ?_, separates_iff.mpr fun l hl => ?_, separates_iff.mpr fun l hl => ?_⟩
    · exact congrArg testFiles (h _ (hr hl (.refl _) (.refl _)))
    · exact congrArg cases (h _ (hr (.refl _) hl (.refl _)))
    · exact congrArg commands (h _ (hr (.refl _) (.refl _) hl))

end Requirements
end Freeze

-- Reading back what has the canonical form of a written value.
section Reading

variable {py : Conversions} {item : Json} {payload : Json.Dict}

theorem mapM_of_canonical {α : Type} {json : α → Json} {read : Json → Except Exc α}
    (hr : ∀ {v a}, Json.Distinct v → v.canonical = (json a).canonical → read v = .ok a) {vs : List Json} {as : List α}
    (hd : ∀ v ∈ vs, Json.Distinct v) (h : vs.map Json.canonical = (as.map json).map Json.canonical) :
    vs.mapM read = .ok as := by
  induction vs generalizing as with
  | nil          => rw [List.map_eq_nil_iff.mp (List.map_eq_nil_iff.mp h.symm)]; rfl
  | cons v vs hi =>
    cases as with
    | nil       => cases h
    | cons a as =>
      obtain ⟨hv, ht⟩ := List.cons.inj h
      rw [List.mapM_cons, hr (hd v List.mem_cons_self) hv, hi (fun w hw => hd w (List.mem_cons_of_mem v hw)) ht]
      rfl

theorem str_of_canonical {vs : List Json} {as : List String}
    (h : vs.map Json.canonical = (as.map Json.str).map Json.canonical) : vs.map py.str = as := by
  induction vs generalizing as with
  | nil          => exact (List.map_eq_nil_iff.mp (List.map_eq_nil_iff.mp h.symm)).symm
  | cons v vs hi =>
    cases as with
    | nil       => cases h
    | cons a as =>
      obtain ⟨hv, ht⟩ := List.cons.inj h
      rw [List.map_cons, hi ht, Json.canonical_eq_str_iff.mp hv, Conversions.str_str]

variable (py) in
theorem testFileFrom_json {f : TestFileSnapshot} (hd : Json.Distinct item)
    (h : item.canonical = f.json.canonical) : testFileFrom py item = .ok f := by
  obtain ⟨d, rfl⟩ := Json.canonical_eq_obj h
  have he : Json.Distinct f.json := by simp [TestFileSnapshot.json, Json.Distinct, Json.DistinctFields]
  have hp := Json.Dict.get_str_of_canonical "path" hd he h rfl
  have hs := Json.Dict.get_str_of_canonical "sha256" hd he h rfl
  simp only [testFileFrom, subscript, hp, hs]
  rfl

variable (py) in
theorem testCaseFrom_json {c : TestCaseSnapshot} (hd : Json.Distinct item)
    (h : item.canonical = c.json.canonical) : testCaseFrom py item = .ok c := by
  obtain ⟨d, rfl⟩ := Json.canonical_eq_obj h
  have he : Json.Distinct c.json := by simp [TestCaseSnapshot.json, Json.Distinct, Json.DistinctFields]
  have hc := Json.Dict.get_str_of_canonical "case_id" hd he h rfl
  have hn := Json.Dict.get_str_of_canonical "node_id" hd he h rfl
  simp only [testCaseFrom, subscript, hc, hn]
  rfl

theorem ContractCommand.distinct_json {c : ContractCommand} : Json.Distinct c.json := by
  refine ⟨by simp, ?_⟩
  simp [Json.DistinctFields, Json.Distinct, Json.distinctItems_iff]

variable (py) in
theorem commandFrom_json {c : ContractCommand} (hd : Json.Distinct item)
    (h : item.canonical = c.json.canonical) : commandFrom py item = .ok c := by
  obtain ⟨d, rfl⟩ := Json.canonical_eq_obj h
  have he : Json.Distinct c.json := ContractCommand.distinct_json
  have hi := Json.Dict.get_str_of_canonical "command_id" hd he h rfl
  have hr := Json.Dict.get_str_of_canonical "raw_command" hd he h rfl
  have ht := Json.Dict.get_str_of_canonical "test_entity_id" hd he h rfl
  have hm := Json.Dict.get_num_of_canonical "map_seq" hd he h rfl
  obtain ⟨argv, ha, hs⟩ := Json.Dict.get_arr_of_canonical "argv" hd he h rfl
  simp only [commandFrom, subscript, getKey, hi, hr, ht, hm, ha, itemsOrEmpty_arr]
  have hv : argv.map py.str = c.argv := str_of_canonical hs
  simp only [bind, Except.bind, pure, Except.pure, Conversions.int_num, Conversions.str_str, hv]

theorem Requirements.distinct_snapshotPayload {r : Requirements} : Json.Distinct (.obj r.snapshotPayload) := by
  refine ⟨by simp [snapshotPayload], ?_⟩
  simp [snapshotPayload, Json.DistinctFields, Json.Distinct, Json.distinctItems_iff, TestFileSnapshot.json,
    TestCaseSnapshot.json, ContractCommand.json]

variable (py) in
theorem requirementsFrom_payload {r : Requirements} (hd : Json.Distinct (.obj payload))
    (h : (Json.obj payload).canonical = (Json.obj r.snapshotPayload).canonical) :
    requirementsFrom py payload = .ok r := by
  have he := r.distinct_snapshotPayload
  obtain ⟨files, hf, hfs⟩ := Json.Dict.get_arr_of_canonical "test_files" hd he h rfl
  obtain ⟨cases, hc, hcs⟩ := Json.Dict.get_arr_of_canonical "cases" hd he h rfl
  obtain ⟨commands, hm, hms⟩ := Json.Dict.get_arr_of_canonical "commands" hd he h rfl
  obtain ⟨ids, hi, his⟩ := Json.Dict.get_arr_of_canonical "expected_failure_case_ids" hd he h rfl
  have hb := Json.Dict.get_str_of_canonical "baseline_hash" hd he h rfl
  have hq := Json.Dict.get_num_of_canonical "map_seq" hd he h rfl
  have hg := Json.Dict.get_str_of_canonical "boundary_fingerprint" hd he h rfl
  have hv := Json.Dict.get_str_of_canonical "image_version" hd he h rfl
  have hf' := mapM_of_canonical (testFileFrom_json py) (fun _ => (hd.of_get hf).of_mem) hfs
  have hc' := mapM_of_canonical (testCaseFrom_json py) (fun _ => (hd.of_get hc).of_mem) hcs
  have hm' := mapM_of_canonical (commandFrom_json py) (fun _ => (hd.of_get hm).of_mem) hms
  have hi' : ids.map py.str = r.expectedFailureCaseIds := str_of_canonical his
  simp only [requirementsFrom, hf, hc, hm, hi, hb, hq, hg, hv, itemsOrEmpty_arr, bind, Except.bind, hf', hc', hm',
    Option.getD_some, Conversions.int_num, Conversions.strOrEmpty_str, hi']
  rfl

theorem requirementsFrom_congr {payload' : Json.Dict}
    (h : ∀ key, key ≠ "contract_version" → payload.get key = payload'.get key) :
    requirementsFrom py payload = requirementsFrom py payload' := by
  simp only [requirementsFrom, h _ (by decide : "test_files" ≠ "contract_version"),
    h _ (by decide : "cases" ≠ "contract_version"), h _ (by decide : "commands" ≠ "contract_version"),
    h _ (by decide : "expected_failure_case_ids" ≠ "contract_version"),
    h _ (by decide : "baseline_hash" ≠ "contract_version"), h _ (by decide : "map_seq" ≠ "contract_version"),
    h _ (by decide : "boundary_fingerprint" ≠ "contract_version"),
    h _ (by decide : "image_version" ≠ "contract_version")]

-- The payload of a contract determines its requirements.
theorem Requirements.snapshotPayload_injective {r r' : Requirements}
    (h : (Json.obj r.snapshotPayload).canonical = (Json.obj r'.snapshotPayload).canonical) : r = r' := by
  let py : Conversions := ⟨fun _ => "", fun _ => none⟩
  have h₁ := requirementsFrom_payload py r.distinct_snapshotPayload h
  have h₂ := requirementsFrom_payload py r.distinct_snapshotPayload (r := r) rfl
  exact Except.ok.inj (h₂.symm.trans h₁)

end Reading

section Version

variable {py : Conversions} {sha256 : String → String} {c c' : FrozenContract} {payload : Json.Dict}

theorem FrozenContract.eq_of_version (hs : Function.Injective sha256)
    (h : c.contractVersion sha256 = c'.contractVersion sha256) : c = c' :=
  FrozenContract.ext_requirements <| Requirements.snapshotPayload_injective <| Json.dumps_injective (hs h)

theorem fromDict_of_canonical (hd : Json.Distinct (.obj payload))
    (h : (Json.obj (payload.erase "contract_version")).canonical = (Json.obj c.snapshotPayload).canonical)
    (hv : py.strOrEmpty (payload.get "contract_version") = c.contractVersion sha256) :
    fromDict py sha256 payload = .ok c := by
  have hg {key : String} (hk : key ≠ "contract_version") :
      payload.get key = (payload.erase "contract_version").get key :=
    (Json.Dict.get_erase_of_ne hk).symm
  have hs : payload.get "schema" = some (.str testContractSchema) := by
    rw [hg (by decide)]
    exact Json.Dict.get_str_of_canonical _ hd.erase c.distinct_snapshotPayload h rfl
  have hr : requirementsFrom py payload = .ok c.toRequirements := by
    rw [requirementsFrom_congr fun _ => hg]
    exact requirementsFrom_payload _ hd.erase h
  simp [fromDict, Except.raiseIf, hs, hr, hv, FrozenContract.freeze_self, bind, Except.bind, pure, Except.pure]

theorem FrozenContract.erase_toDict : (c.toDict sha256).erase "contract_version" = c.snapshotPayload := by
  simp [toDict, Requirements.snapshotPayload, Json.Dict.erase]

theorem FrozenContract.distinct_toDict : Json.Distinct (.obj (c.toDict sha256)) := by
  obtain ⟨_, hf⟩ := c.distinct_snapshotPayload
  exact ⟨by simp [toDict, Requirements.snapshotPayload], trivial, hf⟩

theorem FrozenContract.fromDict_toDict : fromDict py sha256 (c.toDict sha256) = .ok c :=
  fromDict_of_canonical c.distinct_toDict (by rw [erase_toDict]) Conversions.strOrEmpty_str

end Version

-- The store checks the version against the text of the snapshot, and nothing else of it.
section Store

open Plan

variable {py : Conversions} {sha256 : String → String} {db : Db} {nodeId version : String} {snapshot : Json.Dict}

structure Hashed (sha256 : String → String) (version : String) (snapshot : Json.Dict) : Prop where
  names   : Json.textOrEmpty (snapshot.get "contract_version") = version
  content : sha256 (Json.dumps (.obj (snapshot.erase "contract_version"))) = version

theorem hashed_of_stored {res : Db × FreezeResult}
    (h : db.freezeTestContract sha256 nodeId version snapshot = .ok res) : Hashed sha256 version snapshot := by
  simp only [Db.freezeTestContract] at h
  split at h
  case isTrue => cases h
  case isFalse hv =>
    split at h
    case isTrue => cases h
    case isFalse hc => exact ⟨not_not.mp hv, not_not.mp hc⟩

-- What stands in the way of a snapshot whose hashes fit: another contract of the node.
inductive Refused (db : Db) (nodeId version : String) (snapshot : Json.Dict) : Prop
  | other (row : ContractRow) (stored : db.contract? nodeId version = some row)
      (differs : row.snapshot ≠ Json.dumps (.obj snapshot) ∨ row.state ≠ .frozen)
  | active (row : ContractRow) (fresh : db.contract? nodeId version = none)
      (active : db.activeContract? nodeId = some row)

theorem Hashed.stored (hh : Hashed sha256 version snapshot) (hr : ¬Refused db nodeId version snapshot) :
    ∃ res, db.freezeTestContract sha256 nodeId version snapshot = .ok res := by
  rw [Db.freezeTestContract]
  simp only [hh.names, hh.content, ne_eq, not_true, if_false]
  split
  case h_1 row hrow =>
    have hs : row.snapshot = Json.dumps (.obj snapshot) := not_not.mp fun h => hr (.other row hrow (.inl h))
    have hf : row.state = .frozen := not_not.mp fun h => hr (.other row hrow (.inr h))
    simp [hs, hf]
  case h_2 hnone =>
    split
    case h_1 row hrow => exact absurd (.active row hnone hrow) hr
    case h_2 hactive =>
      let row : ContractRow := ⟨nodeId, version, Json.dumps (.obj snapshot), .frozen, none⟩
      have hk : ∀ key ∈ row.keys, db.contracts.lookup key = none := by
        simp only [row, ContractRow.keys, List.forall_mem_cons]
        exact ⟨hnone, hactive, fun _ h => absurd h List.not_mem_nil⟩
      obtain ⟨_, hi⟩ := Table.insert?_isSome hk
      exact ⟨_, by rw [hi]⟩

theorem strOrEmpty_of_textOrEmpty {v : Option Json} (h : Json.textOrEmpty v = version) (hv : version ≠ "") :
    py.strOrEmpty v = version := by
  cases v with
  | none   => exact h
  | some v =>
    cases v with
    | bool b => cases b with | _ => simpa [Conversions.strOrEmpty, truthy, Json.textOrEmpty, Conversions.str] using h
    | num n  => simpa [Conversions.strOrEmpty, truthy, Json.textOrEmpty, Conversions.str] using h
    | str s  => simpa [Json.textOrEmpty] using h
    | _      => exact absurd h.symm hv

-- The loader takes a snapshot of the store exactly when its text is the text of a frozen contract.
theorem Hashed.loads_iff (hh : Hashed sha256 version snapshot) (hs : Function.Injective sha256) (hv : version ≠ "")
    (hd : Json.Distinct (.obj snapshot)) :
    (∃ c, fromDict py sha256 snapshot = .ok c ∧ c.contractVersion sha256 = version) ↔
      ∃ c : FrozenContract,
        Json.dumps (.obj (snapshot.erase "contract_version")) = Json.dumps (.obj c.snapshotPayload) := by
  constructor
  · rintro ⟨c, _, hc⟩
    exact ⟨c, hs (hh.content.trans hc.symm)⟩
  · rintro ⟨c, hc⟩
    have hcv : c.contractVersion sha256 = version := (congrArg sha256 hc).symm.trans hh.content
    refine ⟨c, fromDict_of_canonical hd (Json.dumps_injective hc) ?_, hcv⟩
    rw [strOrEmpty_of_textOrEmpty hh.names hv, hcv]

theorem FrozenContract.hashed_toDict {c : FrozenContract} :
    Hashed sha256 (c.contractVersion sha256) (c.toDict sha256) :=
  ⟨rfl, by rw [erase_toDict]; rfl⟩

end Store

section Main

open Plan

-- The version of a contract and its content.
theorem contract_identified (py : Conversions) (sha256 : String → String) (injective : Function.Injective sha256)
    (nonempty : ∀ text, sha256 text ≠ "") :
    (∀ r c, freeze r = .ok c →
      ((∀ r', Requirements.Permutes r' r →
          ∃ c', freeze r' = .ok c' ∧ c'.contractVersion sha256 = c.contractVersion sha256) ↔ r.Separated)) ∧
    (∀ c c' : FrozenContract, c.contractVersion sha256 = c'.contractVersion sha256 → c = c') ∧
    (∀ c, fromDict py sha256 (c.toDict sha256) = .ok c) ∧
    (∀ (db : Db) nodeId version (snapshot : Json.Dict) res, Json.Distinct (.obj snapshot) →
      db.freezeTestContract sha256 nodeId version snapshot = .ok res →
      ((∃ c, fromDict py sha256 snapshot = .ok c ∧ c.contractVersion sha256 = version) ↔
        ∃ c : FrozenContract,
          Json.dumps (.obj (snapshot.erase "contract_version")) = Json.dumps (.obj c.snapshotPayload))) ∧
    (∀ (c : FrozenContract) (db : Db) nodeId,
      ¬Refused db nodeId (c.contractVersion sha256) (c.toDict sha256) →
      ∃ res, db.freezeTestContract sha256 nodeId (c.contractVersion sha256) (c.toDict sha256) = .ok res) := by
  refine ⟨fun r c h => ?permutes, fun c c' => FrozenContract.eq_of_version injective,
    fun c => FrozenContract.fromDict_toDict, fun db nodeId version snapshot res hd h => ?loads,
    fun c db nodeId hr => c.hashed_toDict.stored hr⟩
  case permutes =>
    rw [Requirements.separated_iff]
    constructor
    · intro hp r' hr'
      obtain ⟨c', hc', hv⟩ := hp r' hr'
      rw [FrozenContract.eq_of_version injective hv] at hc'
      exact (freeze_eq_ok_iff.mp hc').symm.trans (freeze_eq_ok_iff.mp h)
    · exact fun hn r' hr' => ⟨c, freeze_of_normalized h (hn r' hr'), rfl⟩
  case loads =>
    have hh := hashed_of_stored h
    exact hh.loads_iff injective (hh.content ▸ nonempty _) hd

namespace Sample

def sha256 (text : String) : String :=
  "#" ++ text

theorem sha256_injective : Function.Injective sha256 :=
  fun _ _ h => by simpa [sha256] using h

def py : Conversions where
  repr _     := ""
  parseInt _ := none

def files : List TestFileSnapshot :=
  [⟨"tests/test_a.py", "1"⟩, ⟨"tests/test_a.py", "2"⟩]

-- One test file with two hashes.
def twice : Requirements where
  testFiles              := files
  cases                  := [⟨"case", "tests/test_a.py::test"⟩]
  commands               := [⟨⟨"command", ["pytest"], "pytest"⟩, "entity", 1⟩]
  expectedFailureCaseIds := ["case"]
  baselineHash           := "baseline"
  mapSeq                 := 1
  boundaryFingerprint    := "boundary"
  imageVersion           := "image"

def twice' : Requirements :=
  { twice with testFiles := files.reverse }

theorem twice_permutes : Requirements.Permutes twice' twice :=
  ⟨files.reverse_perm, .refl _, .refl _, .refl _, rfl, rfl, rfl, rfl⟩

def contract : FrozenContract where
  toRequirements := twice.normalized
  normal         := Requirements.normalized_normalized
  accepted       := by decide

-- The hashes of this snapshot fit; it has no schema.
def snapshot : Json.Dict :=
  [("contract_version", .str "#\x7b\x7d")]

end Sample

theorem contract_reloaded :
    fromDict Sample.py Sample.sha256 (Sample.contract.toDict Sample.sha256) = .ok Sample.contract :=
  (contract_identified Sample.py Sample.sha256 Sample.sha256_injective
    fun text => by simp [Sample.sha256]).2.2.1 Sample.contract

theorem contract_not_identified :
    (¬∀ r r' c, freeze r = .ok c → Requirements.Permutes r' r →
      ∃ c', freeze r' = .ok c' ∧ c'.contractVersion Sample.sha256 = c.contractVersion Sample.sha256) ∧
    ¬∀ (db : Db) nodeId version (snapshot : Json.Dict) res, Json.Distinct (.obj snapshot) →
      db.freezeTestContract Sample.sha256 nodeId version snapshot = .ok res →
      ∃ c, fromDict Sample.py Sample.sha256 snapshot = .ok c ∧ c.contractVersion Sample.sha256 = version := by
  constructor
  · intro h
    obtain ⟨c', hc', hv⟩ := h Sample.twice Sample.twice' Sample.contract (freeze_eq_ok_iff.mpr rfl)
      Sample.twice_permutes
    have hn := freeze_eq_ok_iff.mp hc'
    rw [FrozenContract.eq_of_version Sample.sha256_injective hv] at hn
    exact absurd hn (by decide)
  · intro h
    have hh : Hashed Sample.sha256 "#\x7b\x7d" Sample.snapshot := ⟨rfl, rfl⟩
    have hr : ¬Refused Db.empty "node" "#\x7b\x7d" Sample.snapshot := by
      intro hr
      cases hr with
      | other _ hs  => cases hs
      | active _ _ hs => cases hs
    obtain ⟨res, hres⟩ := hh.stored hr
    obtain ⟨c, hc, _⟩ := h Db.empty "node" _ Sample.snapshot res (by simp [Sample.snapshot, Json.Distinct,
      Json.DistinctFields]) hres
    cases hc

end Main
end Container
