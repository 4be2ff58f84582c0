import BridleModel.Evidence.Store
import BridleModel.Json.Canonical
import BridleModel.Library.HashChain

namespace Evidence

-- Two records say the same. Python compares dicts without regard to the order of their keys.
structure Record.Same (a b : Record) : Prop where
  evidenceSeq  : a.evidenceSeq = b.evidenceSeq
  event        : a.event = b.event
  payload      : a.payload.canonical = b.payload.canonical
  previousHash : a.previousHash = b.previousHash
  evidenceHash : a.evidenceHash = b.evidenceHash

def chain : HashChain Record String where
  previous := (·.previousHash)
  digest   := (·.evidenceHash)

section Hash

variable {p : Project} {n e e' : String} {s s' : Int} {d d' : Json.Dict} {h h' : Option String}

theorem ofOption_injective (hh : Json.ofOption h = Json.ofOption h') : h = h' := by
  cases h <;> cases h' <;> cases hh <;> rfl

theorem canonical_ofOption : (Json.ofOption h).canonical = Json.ofOption h := by
  cases h <;> rfl

-- The hash covers the sequence number, the event, the payload and the link.
theorem evidenceHash_injective (injective : Function.Injective p.sha256)
    (hh : p.evidenceHash n s e d h = p.evidenceHash n s' e' d' h') :
    s = s' ∧ e = e' ∧ (Json.obj d).canonical = (Json.obj d').canonical ∧ h = h' := by
  have hc := Json.dumps_injective (injective hh)
  have sorted {a b c d e : Json} : [("node_id", a), ("evidence_seq", b), ("event", c), ("payload", d),
      ("previous_hash", e)].insertionSort Json.byKey = [("event", c), ("evidence_seq", b),
      ("node_id", a), ("payload", d), ("previous_hash", e)] := by
    simp [List.insertionSort_cons, Json.byKey]
  rw [Json.canonical_obj, Json.canonical_obj, sorted, sorted] at hc
  simp only [List.map_cons, List.map_nil, Json.canonical, Json.obj.injEq, List.cons.injEq,
    Prod.mk.injEq, Json.str.injEq, Json.num.injEq, true_and, and_true] at hc
  have ⟨he, hs, hd, ho⟩ := hc
  rw [canonical_ofOption, canonical_ofOption] at ho
  exact ⟨hs, he, by rw [Json.canonical, Json.canonical, hd], ofOption_injective ho⟩

theorem evidenceHash_canonical (hd : (Json.obj d).canonical = (Json.obj d').canonical) :
    p.evidenceHash n s e d h = p.evidenceHash n s e d' h := by
  have hd := Json.dumps_eq_iff.mpr hd
  simp only [Project.evidenceHash, material, Json.dumps, Json.dumpsFields] at hd ⊢
  rw [hd]

end Hash

section Validate

variable {p : Project} {db db' : EvidenceDb} {nodeId : String} {previousHash : Option String}
  {publication publication' : Option Publication} {records : List Record} {record : Record}
  {payload : Json.Dict} {v v' : Validation}

-- The record carries the hash of what it says.
def Hashed (p : Project) (nodeId : String) (record : Record) : Prop :=
  ∃ payload, record.payload = .obj payload ∧ record.evidenceHash =
    p.evidenceHash nodeId record.evidenceSeq record.event payload record.previousHash

theorem recordError_eq_none (h : recordError p nodeId previousHash record payload = none) :
    record.previousHash = previousHash ∧ record.evidenceHash =
      p.evidenceHash nodeId record.evidenceSeq record.event payload previousHash := by
  unfold recordError at h
  split at h
  case isTrue => cases h
  split at h
  case h_1 => cases h
  split at h
  case isTrue     => cases h
  case isFalse hp =>
    split at h
    case isTrue     => cases h
    case isFalse hh => exact ⟨not_not.mp hp, not_not.mp hh⟩

theorem linked_of_validateRecords
    (h : validateRecords p nodeId previousHash publication records = .ok (none, publication')) :
    chain.Linked previousHash records ∧ ∀ record ∈ records, Hashed p nodeId record := by
  induction records generalizing previousHash publication with
  | nil => exact ⟨trivial, nofun⟩
  | cons record records hi =>
    unfold validateRecords at h
    split at h
    case h_2 => cases h
    case h_1 payload hp =>
      split at h
      case h_1    => cases h
      case h_2 he =>
        have ⟨hl, hh⟩ := recordError_eq_none he
        have ⟨linked, hashed⟩ := hi h
        refine ⟨⟨hl, linked⟩, fun r hr => ?_⟩
        cases List.mem_cons.mp hr with
        | inl hr => subst hr; exact ⟨payload, hp, hl ▸ hh⟩
        | inr hr => exact hashed r hr

theorem latest_chain : chain.latest none records = records.getLast?.map (·.evidenceHash) := by
  cases records using List.reverseRecOn with
  | nil              => rfl
  | append_singleton => rw [HashChain.latest_concat]; simp [chain]

theorem validateEvidenceChain_valid (h : validateEvidenceChain p nodeId db = .ok v)
    (valid : v.valid = true) : ∃ records, listEvidence db nodeId = .ok records ∧
      chain.Linked none records ∧ (∀ record ∈ records, Hashed p nodeId record) ∧
      chain.latest none records = v.latestEvidenceHash := by
  unfold validateEvidenceChain at h
  split at h
  case h_1            => cases h
  case h_2 records hr =>
    split at h
    case h_1    => cases h
    case h_2 firstBreak _ hv =>
      cases h
      cases Option.isNone_iff_eq_none.mp valid
      have ⟨linked, hashed⟩ := linked_of_validateRecords hv
      exact ⟨records, hr, linked, hashed, latest_chain⟩

theorem same_of_hashed (injective : Function.Injective p.sha256) {a b : Record}
    (ha : Hashed p nodeId a) (hb : Hashed p nodeId b) (h : a.evidenceHash = b.evidenceHash) :
    a.Same b := by
  have ⟨d, hd, hha⟩ := ha
  have ⟨d', hd', hhb⟩ := hb
  have ⟨hs, he, hp, hl⟩ := evidenceHash_injective injective (hha.symm.trans <| h.trans hhb)
  exact ⟨hs, he, by rw [hd, hd', hp], hl, h⟩

-- Two valid chains of a node with the same last hash are the same.
theorem same_of_latest_eq (injective : Function.Injective p.sha256)
    (h : validateEvidenceChain p nodeId db = .ok v) (h' : validateEvidenceChain p nodeId db' = .ok v')
    (valid : v.valid = true) (valid' : v'.valid = true)
    (latest : v.latestEvidenceHash = v'.latestEvidenceHash) :
    ∃ records records', listEvidence db nodeId = .ok records ∧ listEvidence db' nodeId = .ok records' ∧
      List.Forall₂ Record.Same records records' := by
  have ⟨records, hr, linked, hashed, hl⟩ := validateEvidenceChain_valid h valid
  have ⟨records', hr', linked', hashed', hl'⟩ := validateEvidenceChain_valid h' valid'
  refine ⟨records, records', hr, hr', HashChain.forall₂_of_latest_eq ?_ ?_ linked linked' ?_⟩
  · exact fun a ha b hb => same_of_hashed injective (hashed a ha) (hashed' b hb)
  · exact Record.Same.previousHash
  · exact hl.trans <| latest.trans hl'.symm

end Validate

section Round

variable {v : Option Json} {p : Project} {nodeId : String} {payload safe d : Json.Dict}

theorem truthy_obj : truthy (some (.obj d)) = !d.isEmpty := by
  cases d <;> rfl

theorem truthy_canonical : truthy (v.map (·.canonical)) = truthy v := by
  cases v with
  | none   => rfl
  | some v =>
    cases v with
    | null   => rfl
    | bool _ => rfl
    | num _  => rfl
    | str _  => rfl
    | arr vs => cases vs <;> rfl
    | obj d  =>
      change truthy (some (.obj (Json.Dict.canonical d))) = _
      rw [truthy_obj, truthy_obj, Json.Dict.perm_canonical.isEmpty_eq, Json.canonicalFields_eq_map,
        List.isEmpty_map]

-- What `_sanitize_evidence_payload` lets through.
structure Sound (p : Project) (safe : Json.Dict) : Prop where
  distinct : (Json.obj safe).Distinct
  required : truthy (safe.get "required_command_ids") = true
  artifact : p.validateEvidenceArtifact safe = none

theorem sanitize_eq (h : p.sanitizeEvidencePayload nodeId payload = .ok safe) :
    safe = payload.filter (·.fst ∈ Project.allowed) := by
  unfold Project.sanitizeEvidencePayload at h
  dsimp only at h
  split at h
  case h_2 => cases h
  case h_1 =>
    split at h
    case isTrue => cases h
    split at h
    case isTrue  => cases h
    case isFalse =>
      split at h
      case h_1 => cases h
      case h_2 => exact (Except.ok.inj h).symm

theorem sound_of_sanitize (distinct : (Json.obj payload).Distinct)
    (h : p.sanitizeEvidencePayload nodeId payload = .ok safe) : Sound p safe := by
  unfold Project.sanitizeEvidencePayload at h
  dsimp only at h
  split at h
  case h_2 => cases h
  case h_1 =>
    split at h
    case isTrue => cases h
    split at h
    case isTrue     => cases h
    case isFalse hr =>
      split at h
      case h_1          => cases h
      case h_2 artifact =>
        cases h
        have ⟨hk, hf⟩ : (payload.map (·.fst)).Nodup ∧ Json.DistinctFields payload := distinct
        have hs := List.filter_sublist (p := (·.fst ∈ Project.allowed)) (l := payload)
        refine ⟨⟨hk.sublist (hs.map _), Json.distinctFields_iff.mpr fun f hm => ?_⟩,
          not_not.mp hr, artifact⟩
        exact Json.distinctFields_iff.mp hf f (hs.mem hm)

theorem Sound.loads (h : Sound p safe) :
    Json.loads (Json.obj safe).dumps = some (.obj safe.canonical) :=
  Json.loads_dumps h.distinct

end Round

section Build

variable {p : Project} {nodeId event : String} {safe : Json.Dict}
  {entries : List (String × Json.Dict)}

-- The rows that the events of a node with their payloads give, in their order.
def build (p : Project) (nodeId : String) (entries : List (String × Json.Dict)) : List EvidenceRow :=
  entries.foldl (fun rows e => rows ++ [.next p nodeId e.fst e.snd rows.getLast?]) []

theorem build_concat : build p nodeId (entries ++ [(event, safe)]) =
    build p nodeId entries ++ [.next p nodeId event safe (build p nodeId entries).getLast?] := by
  simp [build]

theorem length_build : (build p nodeId entries).length = entries.length := by
  induction entries using List.reverseRecOn with
  | nil                   => rfl
  | append_singleton _ e hi => rw [build_concat, List.length_append, List.length_append, hi]; rfl

theorem nextSeq (previous : Option EvidenceRow) : (EvidenceRow.next p nodeId event safe previous).evidenceSeq =
    (previous.map (·.evidenceSeq)).getD 0 + 1 := by
  cases previous <;> rfl

theorem lastSeq_build :
    ((build p nodeId entries).getLast?.map (·.evidenceSeq)).getD 0 = entries.length := by
  induction entries using List.reverseRecOn with
  | nil                     => rfl
  | append_singleton _ e hi =>
    rw [build_concat, List.getLast?_concat, Option.map_some, Option.getD_some, nextSeq, hi]
    simp

theorem seqs_build : (build p nodeId entries).map (·.evidenceSeq) =
    (List.range entries.length).map fun i : Nat => (i : Int) + 1 := by
  induction entries using List.reverseRecOn with
  | nil                     => rfl
  | append_singleton _ e hi =>
    rw [build_concat, List.map_append, hi, List.length_append, List.length_singleton, List.range_succ,
      List.map_append, List.map_singleton, List.map_singleton, nextSeq, lastSeq_build]

theorem argmax_build :
    @List.argmax _ _ Int.instLinearOrder.toPreorder inferInstance (·.evidenceSeq) (build p nodeId entries) =
      (build p nodeId entries).getLast? := by
  induction entries using List.reverseRecOn with
  | nil                     => rfl
  | append_singleton _ e hi =>
    rw [build_concat, List.argmax_concat, hi, List.getLast?_concat]
    cases hl : (build p nodeId _).getLast? with
    | none     => rfl
    | some row =>
      have hs : row.evidenceSeq < (EvidenceRow.next p nodeId e.fst e.snd (some row)).evidenceSeq := by
        rw [nextSeq]
        exact Int.lt_succ _
      exact if_pos hs

theorem sorted_build :
    (build p nodeId entries).insertionSort EvidenceDb.bySeq = build p nodeId entries := by
  have hs : ((build p nodeId entries).map (·.evidenceSeq)).Pairwise (· ≤ ·) := by
    rw [seqs_build]
    exact List.pairwise_map.mpr <| List.pairwise_le_range.imp fun h => by omega
  exact (List.pairwise_map.mp hs).insertionSort_eq

end Build

section Stored

variable {p : Project} {nodeId event : String} {safe : Json.Dict} {row : EvidenceRow}
  {rows : List EvidenceRow} {entries : List (String × Json.Dict)} {records records' : List Record}
  {previousHash : Option String} {publication publication' : Option Publication} {b : Break}

-- The record that `list_evidence` makes of a row whose payload can be read.
def EvidenceRow.read (row : EvidenceRow) : Record :=
  { row with payload := (Json.loads row.payload).getD .null }

theorem mapM_record (h : ∀ row ∈ rows, (Json.loads row.payload).isSome) :
    rows.mapM (·.record) = .ok (rows.map (·.read)) := by
  induction rows with
  | nil              => rfl
  | cons row rows hi =>
    have ⟨payload, hp⟩ := Option.isSome_iff_exists.mp (h row List.mem_cons_self)
    have hr : row.record = .ok row.read := by
      simp [EvidenceRow.record, EvidenceRow.read, hp]
    rw [List.mapM_cons, hr, hi fun r hm => h r (List.mem_cons_of_mem _ hm)]
    rfl

theorem loads_build (sound : ∀ e ∈ entries, Sound p e.snd) :
    ∀ row ∈ build p nodeId entries, (Json.loads row.payload).isSome := by
  induction entries using List.reverseRecOn with
  | nil                     => nofun
  | append_singleton l e hi =>
    intro row hr
    rw [build_concat] at hr
    cases List.mem_append.mp hr with
    | inl hr => exact hi (fun e he => sound e (List.mem_append_left _ he)) row hr
    | inr hr =>
      cases List.mem_singleton.mp hr
      have hs : Sound p e.snd := sound e (by simp)
      change (Json.loads (Json.obj e.snd).dumps).isSome
      rw [hs.loads]
      rfl

-- A loop that finds no break goes on with what follows.
theorem validateRecords_append
    (h : validateRecords p nodeId previousHash publication records = .ok (none, publication')) :
    validateRecords p nodeId previousHash publication (records ++ records') =
      validateRecords p nodeId (chain.latest previousHash records) publication' records' := by
  induction records generalizing previousHash publication with
  | nil                    => cases h; rfl
  | cons record records hi =>
    unfold validateRecords at h
    rw [List.cons_append, validateRecords]
    split at h
    case h_2            => cases h
    case h_1 payload hp =>
      split at h
      case h_1    => cases h
      case h_2    => exact hi h

theorem validateRecords_append_break
    (h : validateRecords p nodeId previousHash publication records = .ok (some b, publication')) :
    validateRecords p nodeId previousHash publication (records ++ records') =
      .ok (some b, publication') := by
  induction records generalizing previousHash publication with
  | nil                    => cases h
  | cons record records hi =>
    unfold validateRecords at h
    rw [List.cons_append, validateRecords]
    split at h
    case h_2            => cases h
    case h_1 payload hp =>
      split at h
      case h_1 => cases h; rfl
      case h_2 => exact hi h

theorem read_next (sound : Sound p safe) {previous : Option EvidenceRow} :
    (EvidenceRow.next p nodeId event safe previous).read =
      { EvidenceRow.next p nodeId event safe previous with payload := .obj safe.canonical } := by
  have hp : (EvidenceRow.next p nodeId event safe previous).payload = (Json.obj safe).dumps := rfl
  rw [EvidenceRow.read, hp, sound.loads]
  rfl

-- Of a record that `append_evidence` has written only the artifact can fail the checks.
theorem recordError_next (sound : Sound p safe) {previous : Option EvidenceRow} :
    recordError p nodeId (previous.map (·.evidenceHash))
        (EvidenceRow.next p nodeId event safe previous).read safe.canonical =
      p.validateEvidenceArtifact safe.canonical := by
  have hr : truthy (safe.canonical.get "required_command_ids") = true := by
    rw [Json.Dict.get_canonical sound.distinct.left, truthy_canonical]
    exact sound.required
  have hh {n e : String} {s : Int} {h : Option String} :
      p.evidenceHash n s e safe h = p.evidenceHash n s e safe.canonical h :=
    evidenceHash_canonical (Json.canonical_canonical (v := .obj safe)).symm
  unfold recordError
  rw [if_neg (not_not.mpr hr), read_next sound]
  cases p.validateEvidenceArtifact safe.canonical with
  | some _ => rfl
  | none   => exact (if_neg (not_not.mpr rfl)).trans <| if_neg (not_not.mpr hh)

theorem validateRecords_build (sound : ∀ e ∈ entries, Sound p e.snd) :
    ∃ firstBreak publication,
      validateRecords p nodeId none none ((build p nodeId entries).map (·.read)) =
        .ok (firstBreak, publication) ∧
      (firstBreak = none ↔ ∀ e ∈ entries, p.validateEvidenceArtifact e.snd.canonical = none) := by
  induction entries using List.reverseRecOn with
  | nil                     => exact ⟨none, none, rfl, by simp⟩
  | append_singleton l e hi =>
    have ⟨firstBreak, publication, hv, hb⟩ := hi fun e he => sound e (List.mem_append_left _ he)
    rw [build_concat, List.map_append, List.map_singleton, List.forall_mem_append,
      List.forall_mem_singleton]
    cases firstBreak with
    | some b =>
      exact ⟨some b, publication, validateRecords_append_break hv,
        nofun, fun h => absurd (hb.mpr h.left) nofun⟩
    | none   =>
      have hs : Sound p e.snd := sound e (by simp)
      have hl : chain.latest none ((build p nodeId l).map (·.read)) =
          (build p nodeId l).getLast?.map (·.evidenceHash) := by
        rw [latest_chain, List.getLast?_map, Option.map_map]
        rfl
      have hp : (EvidenceRow.next p nodeId e.fst e.snd (build p nodeId l).getLast?).read.payload =
          .obj e.snd.canonical := by rw [read_next hs]
      rw [validateRecords_append hv, hl]
      simp only [validateRecords, hp, recordError_next hs]
      cases p.validateEvidenceArtifact e.snd.canonical with
      | none   => exact ⟨none, _, rfl, fun _ => ⟨hb.mp rfl, rfl⟩, fun _ => rfl⟩
      | some _ => exact ⟨_, _, rfl, nofun, nofun⟩

end Stored

section Run

variable {p : Project} {db db' : EvidenceDb} {nodeId : String} {calls : List Append} {call : Append}

-- The event that a call appends to the chain of the node.
def Append.entry (p : Project) (nodeId : String) (call : Append) : Option (String × Json.Dict) :=
  if call.nodeId = nodeId then
    (p.sanitizeEvidencePayload nodeId call.payload).toOption.map (call.event, ·)
  else
    none

def entries (p : Project) (nodeId : String) (calls : List Append) : List (String × Json.Dict) :=
  calls.filterMap (·.entry p nodeId)

-- The chains of all nodes are as the calls have built them.
def Built (p : Project) (calls : List Append) (db : EvidenceDb) : Prop :=
  ∀ nodeId, db.nodeRows nodeId = build p nodeId (entries p nodeId calls)

theorem sound_entries : ∀ e ∈ entries p nodeId calls, Sound p e.snd := by
  intro e he
  have ⟨call, _, hc⟩ := List.mem_filterMap.mp he
  unfold Append.entry at hc
  split at hc
  case isFalse => cases hc
  case isTrue  =>
    have ⟨safe, hs, he⟩ := Option.map_eq_some_iff.mp hc
    subst he
    exact sound_of_sanitize call.distinct (Except.toOption_eq_some_iff.mp hs)

theorem entries_concat : entries p nodeId (calls ++ [call]) =
    entries p nodeId calls ++ (call.entry p nodeId).toList := by
  rw [entries, List.filterMap_append]
  cases h : call.entry p nodeId <;> simp [entries, h]

theorem Built.previous (h : Built p calls db) :
    db.previous nodeId = (build p nodeId (entries p nodeId calls)).getLast? := by
  rw [EvidenceDb.previous, h nodeId, argmax_build]

-- The next sequence number is free.
theorem Built.insert (nodeId event : String) (safe : Json.Dict) (h : Built p calls db) :
    ∃ db' : EvidenceDb, db.insert? (.next p nodeId event safe (db.previous nodeId)) = some db' := by
  refine Table.insert?_isSome fun k hk => Table.lookup_eq_none_iff.mpr fun row hr hk' => ?_
  cases List.mem_singleton.mp hk
  have ⟨hn, hs⟩ := Prod.mk.inj (List.mem_singleton.mp hk')
  have hm : row ∈ db.nodeRows nodeId := List.mem_filter.mpr ⟨hr, decide_eq_true hn.symm⟩
  rw [h nodeId] at hm
  have hm := List.mem_map_of_mem (f := (·.evidenceSeq)) hm
  rw [seqs_build] at hm
  have ⟨i, hi, he⟩ := List.mem_map.mp hm
  have hlt := List.mem_range.mp hi
  rw [nextSeq, h.previous, lastSeq_build] at hs
  omega

theorem Built.append (h : Built p calls db) : Built p (calls ++ [call]) (db.append p call) := by
  intro nodeId
  rw [entries_concat]
  unfold EvidenceDb.append appendEvidence
  cases hs : p.sanitizeEvidencePayload call.nodeId call.payload with
  | error e =>
    have he : call.entry p nodeId = none := by
      unfold Append.entry
      split
      case isTrue hn => simp [← hn, hs, Except.toOption]
      case isFalse   => rfl
    rw [he]
    simpa using h nodeId
  | ok safe =>
    obtain ⟨db', hi⟩ := h.insert call.nodeId call.event safe
    have hr : db'.nodeRows nodeId = db.nodeRows nodeId ++
        [EvidenceRow.next p call.nodeId call.event safe (db.previous call.nodeId)].filter (·.nodeId = nodeId) := by
      rw [EvidenceDb.nodeRows, Table.insert?_rows hi, List.filter_append]
      rfl
    simp only [hi]
    change db'.nodeRows nodeId = _
    rw [hr, h nodeId]
    have hk : (EvidenceRow.next p call.nodeId call.event safe (db.previous call.nodeId)).nodeId =
        call.nodeId := rfl
    by_cases hn : call.nodeId = nodeId
    case neg => simp [Append.entry, hn, hk]
    case pos =>
      subst hn
      have he : call.entry p call.nodeId = some (call.event, safe) := by
        simp [Append.entry, hs, Except.toOption]
      rw [he, Option.toList_some, build_concat, h.previous]
      simp [EvidenceRow.next]

theorem built (h : (system p).run .empty calls = some db) : Built p calls db := by
  refine TransitionSystem.run_induction (I := Built p) ?_ ?_ h
  · exact fun _ => rfl
  · rintro calls call db _ _ hb ⟨⟩
    exact hb.append

theorem mem_entries {e : String × Json.Dict} : e ∈ entries p nodeId calls ↔ ∃ call ∈ calls,
    call.nodeId = nodeId ∧ call.event = e.fst ∧
      p.sanitizeEvidencePayload call.nodeId call.payload = .ok e.snd := by
  rw [entries, List.mem_filterMap]
  refine exists_congr fun call => and_congr_right fun _ => ?_
  unfold Append.entry
  split
  case isFalse hn => simp [hn]
  case isTrue hn  =>
    have ⟨event, safe⟩ := e
    simp [hn, Option.map_eq_some_iff, Except.toOption_eq_some_iff, and_comm]

-- The artifact of the payload as it comes back from the stored JSON passes the check that
-- `append_evidence` makes of the payload as it is given.
def Append.Kept (p : Project) (call : Append) : Prop :=
  ∀ safe, p.sanitizeEvidencePayload call.nodeId call.payload = .ok safe →
    p.validateEvidenceArtifact safe.canonical = none

def Verifies (p : Project) (db : EvidenceDb) (nodeId : String) : Prop :=
  ∃ v, validateEvidenceChain p nodeId db = .ok v ∧ v.valid = true

theorem Built.list (h : Built p calls db) : listEvidence db nodeId =
    .ok ((build p nodeId (entries p nodeId calls)).map (·.read)) := by
  rw [listEvidence, h nodeId, sorted_build]
  exact mapM_record (loads_build sound_entries)

theorem Built.verifies_iff (h : Built p calls db) : Verifies p db nodeId ↔
    ∀ e ∈ entries p nodeId calls, p.validateEvidenceArtifact e.snd.canonical = none := by
  have ⟨firstBreak, publication, hv, hb⟩ :=
    @validateRecords_build _ nodeId _ (@sound_entries p nodeId calls)
  rw [← hb]
  unfold Verifies validateEvidenceChain
  simp only [h.list, hv]
  constructor
  · rintro ⟨_, ⟨⟩, valid⟩
    exact Option.isNone_iff_eq_none.mp valid
  · exact fun hn => ⟨_, rfl, Option.isNone_iff_eq_none.mpr hn⟩

theorem Built.verify_iff (h : Built p calls db) :
    (∀ nodeId, Verifies p db nodeId) ↔ ∀ call ∈ calls, call.Kept p := by
  simp only [h.verifies_iff, mem_entries]
  constructor
  · exact fun hv call hc safe hs => hv call.nodeId (call.event, safe) ⟨call, hc, rfl, rfl, hs⟩
  · rintro hk nodeId e ⟨call, hc, rfl, _, hs⟩
    exact hk call hc e.snd hs

-- Neither a list nor a dict.
def Scalar : Option Json → Prop
  | some (.arr _) | some (.obj _) => False
  | _                             => True

theorem textOrEmpty_canonical {v : Option Json} (h : Scalar v) :
    p.textOrEmpty (v.map (·.canonical)) = p.textOrEmpty v := by
  cases v with
  | none   => rfl
  | some v => cases v <;> first | rfl | contradiction

theorem get_filter_allowed {d : Json.Dict} {key : String} (h : key ∈ Project.allowed) :
    Json.Dict.get (d.filter (·.fst ∈ Project.allowed)) key = d.get key := by
  rw [Json.Dict.get, Json.Dict.get, List.find?_filter]
  congr
  funext f
  by_cases hf : f.fst = key
  case pos => simp [hf, h]
  case neg => simp [hf]

theorem Append.kept_of_scalar (href : Scalar (call.payload.get "artifact_ref"))
    (hdigest : Scalar (call.payload.get "artifact_digest")) : call.Kept p := by
  intro safe hs
  have sound := sound_of_sanitize call.distinct hs
  have same {key : String} (hk : key ∈ Project.allowed) (hv : Scalar (call.payload.get key)) :
      p.textOrEmpty (safe.canonical.get key) = p.textOrEmpty (safe.get key) := by
    rw [Json.Dict.get_canonical sound.distinct.left, textOrEmpty_canonical]
    rwa [sanitize_eq hs, get_filter_allowed hk]
  have ha := sound.artifact
  unfold Project.validateEvidenceArtifact at ha ⊢
  rwa [same (by decide) href, same (by decide) hdigest]

end Run

theorem evidence_chain (p : Project) (injective : Function.Injective p.sha256) :
    (∀ calls db, (system p).run .empty calls = some db →
      (∀ nodeId, ∃ records, listEvidence db nodeId = .ok records ∧
        records.map (·.evidenceSeq) = (List.range records.length).map fun i : Nat => (i : Int) + 1) ∧
      ((∀ nodeId, Verifies p db nodeId) ↔ ∀ call ∈ calls, call.Kept p)) ∧
    (∀ db db' nodeId v v', validateEvidenceChain p nodeId db = .ok v →
      validateEvidenceChain p nodeId db' = .ok v' → v.valid = true → v'.valid = true →
      v.latestEvidenceHash = v'.latestEvidenceHash →
      ∃ records records', listEvidence db nodeId = .ok records ∧
        listEvidence db' nodeId = .ok records' ∧ List.Forall₂ Record.Same records records') := by
  constructor
  · intro calls db h
    have hb := built h
    refine ⟨fun nodeId => ⟨_, hb.list, ?_⟩, hb.verify_iff⟩
    rw [List.map_map, List.length_map, length_build]
    exact seqs_build
  · exact fun _ _ _ _ _ => same_of_latest_eq injective

-- The artifact is a file of the project root. A dict may name it by its text.
namespace Sample

def digest : String :=
  "bdcf4c994585af6dd6cb1cfbff78bcc73ab27dc30a299db5bb83766ca05b5de4"

def payload (artifactRef : Json) : Json.Dict := [
  ("node_id", .str "node"),
  ("required_command_ids", .arr [.str "test"]),
  ("artifact_ref", artifactRef),
  ("artifact_digest", .str digest)
]

def submitted : String :=
  "4417e3ec4c17c04e359dc6ab06e98ab323581afb9b82a11644d08b069f9a3090"

def report : Json :=
  .str "report.txt"

def disordered : Json :=
  .obj [("b", .num 1), ("a", .num 2)]

def digests : List (String × String) := [
  (material "node" 1 "submitted" (payload report) none, submitted),
  (material "node" 2 "published" (payload report) submitted,
    "fd7259072dd9ce2e8c5a2d5a9a12e1cc80927e80d6e61d3b85c7015a895e33f2"),
  (material "node" 1 "submitted" (payload disordered) none,
    "8afe346543a3f5f5671adb893d290a29c4e103ea9d7796a468e843b12e7765e7")
]

-- SHA-256 on the texts of the runs below.
def sha256 (text : String) : String :=
  match digests.find? (·.fst = text) with
  | some e => e.snd
  | none   => "-" ++ text

def str : Json → String
  | .obj [(a, .num m), (b, .num n)] =>
    "\x7b'" ++ a ++ "': " ++ toString m ++ ", '" ++ b ++ "': " ++ toString n ++ "\x7d"
  | _ => "[]"

def project : Project where
  sha256 := sha256
  str    := str
  artifact path :=
    if path = "report.txt" ∨ path = "\x7b'b': 1, 'a': 2\x7d" then .file digest else .missing

theorem distinct_payload {artifactRef : Json} (h : artifactRef.Distinct) :
    (Json.obj (payload artifactRef)).Distinct := by
  simp [payload, Json.Distinct, Json.DistinctFields, Json.DistinctItems, h]

def append (event : String) (artifactRef : Json) (h : artifactRef.Distinct) : Append where
  nodeId   := "node"
  event    := event
  payload  := payload artifactRef
  distinct := distinct_payload h

def calls : List Append :=
  [append "submitted" report trivial, append "published" report trivial]

theorem kept_report {event : String} : (append event report trivial).Kept project :=
  Append.kept_of_scalar trivial trivial

theorem distinct_disordered : disordered.Distinct := by
  simp [disordered, Json.Distinct, Json.DistinctFields]

def broken : EvidenceDb :=
  EvidenceDb.append project .empty (append "submitted" disordered distinct_disordered)

theorem sha256_injective : Function.Injective sha256 := by
  have distinct : ∀ e ∈ digests, ∀ e' ∈ digests, e.snd = e'.snd → e.fst = e'.fst := by decide +kernel
  have known : ∀ e ∈ digests, e.snd.toList.head? ≠ some '-' := by decide +kernel
  have unknown {e : String × String} {text : String} (he : e ∈ digests) : e.snd ≠ "-" ++ text := by
    intro h
    refine known e he ?_
    rw [h, String.toList_append]
    rfl
  have text {a : String} {e : String × String} (h : digests.find? (·.fst = a) = some e) : e.fst = a := by
    simpa using List.find?_some h
  intro a b h
  unfold sha256 at h
  cases ha : digests.find? (·.fst = a) with
  | none   =>
    cases hb : digests.find? (·.fst = b) with
    | none   => exact (String.append_right_inj "-").mp (by simpa only [ha, hb] using h)
    | some e => exact absurd (by simpa only [ha, hb] using h.symm) (unknown (List.mem_of_find?_eq_some hb))
  | some e =>
    have he := List.mem_of_find?_eq_some ha
    cases hb : digests.find? (·.fst = b) with
    | none    => exact absurd (by simpa only [ha, hb] using h) (unknown he)
    | some e' =>
      have h : e.snd = e'.snd := by simpa only [ha, hb] using h
      exact (text ha).symm.trans <| (distinct e he e' (List.mem_of_find?_eq_some hb) h).trans (text hb)

end Sample

-- A submission and its publication verify.
theorem evidence_chain_published : ∃ db, (system Sample.project).run .empty Sample.calls = some db ∧
    ∀ nodeId, Verifies Sample.project db nodeId := by
  have ⟨chains, _⟩ := evidence_chain Sample.project Sample.sha256_injective
  refine ⟨_, rfl, (chains Sample.calls _ rfl).right.mpr ?_⟩
  simp [Sample.calls, Sample.kept_report]

-- The JSON of a dict puts its keys in order, and its text then names another file.
theorem evidence_chain_not : ¬∀ p : Project, Function.Injective p.sha256 → ∀ db,
    (system p).Reachable db → ∀ nodeId, Verifies p db nodeId := by
  intro h
  have r : (system Sample.project).Reachable Sample.broken := (TransitionSystem.Reachable.init rfl).step rfl
  have ⟨v, hv, valid⟩ := h Sample.project Sample.sha256_injective _ r "node"
  have invalid : (validateEvidenceChain Sample.project "node" Sample.broken).toOption.map (·.valid) =
      some false := by decide +kernel
  rw [hv] at invalid
  simp [Except.toOption, valid] at invalid

end Evidence
