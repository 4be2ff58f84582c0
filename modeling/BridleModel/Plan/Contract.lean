import BridleModel.Library.Except
import BridleModel.Python.Text
import BridleModel.Plan.Transition

namespace Plan

structure FreezeResult where
  nodeId          : String
  contractVersion : String
  state           : ContractState
  applied         : Bool
deriving Repr

structure InvalidateResult where
  nodeId          : String
  contractVersion : String
  state           : ContractState
  reason          : String
  applied         : Bool
deriving Repr

namespace Db

-- `sha256` is `hashlib.sha256(text.encode("utf-8")).hexdigest()`.
def freezeTestContract (sha256 : String → String) (db : Db) (nodeId contractVersion : String)
    (snapshot : Json.Dict) : Except Error (Db × FreezeResult) :=
  let serialized := Json.dumps (.obj snapshot)
  let details := [("node_id", Json.str nodeId), ("contract_version", .str contractVersion)]
  if Json.textOrEmpty (snapshot.get "contract_version") ≠ contractVersion then
    .error <| .validation "test_contract" "Test contract snapshot version does not match" details
  else if sha256 (Json.dumps (.obj (snapshot.erase "contract_version"))) ≠ contractVersion then
    .error <| .validation "test_contract" "Test contract content hash does not match its version"
      details
  else
    match db.contract? nodeId contractVersion with
    | some existing =>
      if existing.snapshot ≠ serialized then
        .error <| .conflict "test_contract" "Test contract version is bound to another snapshot"
          "test_contract_version_conflict" details
      else if existing.state ≠ .frozen then
        .error <| .conflict "test_contract" "Invalidated test contract versions cannot be frozen again"
          "test_contract_version_invalidated" details
      else
        .ok (db, { nodeId, contractVersion, state := .frozen, applied := false })
    | none =>
      match db.activeContract? nodeId with
      | some active =>
        .error <| .conflict "test_contract"
          "Another frozen test contract must be invalidated first" "test_contract_active_conflict"
          [("node_id", .str nodeId), ("contract_version", .str active.contractVersion)]
      | none =>
        match db.contracts.insert? ⟨nodeId, contractVersion, serialized, .frozen, none⟩ with
        | none           => .error .integrity
        | some contracts =>
          let db := { db with contracts }.recordChange "test_contract"
            (nodeId ++ ":" ++ contractVersion) "freeze" details
          .ok (db, { nodeId, contractVersion, state := .frozen, applied := true })

def invalidateTestContract (db : Db) (nodeId contractVersion reason : String) :
    Except Error (Db × InvalidateResult) :=
  let normalizedReason := Python.strip reason
  if normalizedReason = "" then
    .error <| .validation "test_contract" "Test contract invalidation reason is required" []
  else
    match db.contract? nodeId contractVersion with
    | none =>
      .error <| .notFound "test_contract" "Test contract not found"
        [("node_id", .str nodeId), ("contract_version", .str contractVersion)]
    | some row =>
      if row.state = .invalidated then
        .ok (db, {
          nodeId, contractVersion, state := .invalidated, reason := row.invalidationReason.getD "",
          applied := false
        })
      else
        let db := { db with contracts := db.invalidated nodeId contractVersion normalizedReason }
        let db := db.recordChange "test_contract" (nodeId ++ ":" ++ contractVersion) "invalidate" [
          ("node_id", .str nodeId), ("contract_version", .str contractVersion),
          ("reason", .str normalizedReason)
        ]
        .ok (db, {
          nodeId, contractVersion, state := .invalidated, reason := normalizedReason, applied := true
        })

section Invalidated

variable {db : Db} {nodeId n version v reason : String} {row : ContractRow}

-- The rows of one version keep their place; only the frozen row of the named version changes.
theorem lookup_invalidated_version :
    (db.invalidated nodeId version reason).lookup (.version n v) =
      (db.contract? n v).map fun row =>
        if n = nodeId ∧ v = version ∧ row.state = .frozen then
          { row with state := .invalidated, invalidationReason := some reason }
        else
          row := by
  ext row'
  rw [invalidated, Table.lookup_modify, Option.filter_eq_some_iff]
  simp only [contract?, Option.map_eq_some_iff, decide_eq_true_eq]
  have key {row : ContractRow} (hl : db.contracts.lookup (.version n v) = some row) :
      row.nodeId = n ∧ row.contractVersion = v :=
    contract?_eq_some_iff.mp hl |>.right
  constructor
  · rintro ⟨⟨row, hl, he⟩, _⟩
    obtain ⟨hn, hv⟩ := key hl
    exact ⟨row, hl, by rw [← he, hn, hv]⟩
  · rintro ⟨row, hl, he⟩
    obtain ⟨hn, hv⟩ := key hl
    refine ⟨⟨row, hl, by rw [← he, hn, hv]⟩, ?_⟩
    rw [← he]
    split <;> cases hs : row.state <;> simp [ContractRow.keys, hn, hv, hs]

theorem mem_invalidated_frozen (hm : row ∈ db.invalidated nodeId version reason)
    (hs : row.state = .frozen) :
    row ∈ db.contracts ∧ ¬(row.nodeId = nodeId ∧ row.contractVersion = version) := by
  have ⟨row', hm', he⟩ := Table.mem_modify.mp hm
  split at he
  case isTrue => subst he; cases hs
  case isFalse h =>
    subst he
    simp only [decide_eq_true_eq, not_and] at h
    exact ⟨hm', fun ⟨hn, hv⟩ => h hn hv hs⟩

end Invalidated

section Spec

variable {sha256 : String → String} {db db' : Db} {nodeId version reason : String}
  {snapshot : Json.Dict}

theorem freezeTestContract_cases {res : FreezeResult}
    (h : db.freezeTestContract sha256 nodeId version snapshot = .ok (db', res)) :
    db' = db ∨
    (db.contract? nodeId version = none ∧ db.activeContract? nodeId = none ∧
      db'.workflows = db.workflows ∧ db'.events = db.events ∧ db'.runs = db.runs ∧
      db.contracts.insert? ⟨nodeId, version, Json.dumps (.obj snapshot), .frozen, none⟩ =
        some db'.contracts) := by
  simp only [freezeTestContract] at h
  repeat' split at h
  all_goals cases h
  case h_1 => exact .inl rfl
  case h_2 hc _ ha _ contracts hi => exact .inr ⟨hc, ha, rfl, rfl, rfl, hi⟩

theorem invalidateTestContract_cases {res : InvalidateResult}
    (h : db.invalidateTestContract nodeId version reason = .ok (db', res)) :
    db' = db ∨
    (db'.workflows = db.workflows ∧ db'.events = db.events ∧ db'.runs = db.runs ∧
      db'.contracts = db.invalidated nodeId version (Python.strip reason)) := by
  simp only [invalidateTestContract] at h
  repeat' split at h
  all_goals cases h
  case h_2.isTrue.refl  => exact .inl rfl
  case h_2.isFalse.refl => exact .inr ⟨rfl, rfl, rfl, rfl⟩

end Spec
end Db
end Plan
