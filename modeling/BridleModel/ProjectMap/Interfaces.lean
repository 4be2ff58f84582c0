import BridleModel.ProjectMap.Store

open Except Plan

namespace ProjectMap

section Rows

inductive CandidateStatus
  | candidate
  | confirmed
  | rejected
  | stale
deriving DecidableEq, Repr

-- What the synthesis says of a module; its "status" is "candidate".
structure ModuleSketch where
  id              : String
  moduleId        : String
  fileFingerprint : String
deriving DecidableEq, Repr

structure ModuleCandidate extends ModuleSketch where
  status      : CandidateStatus
  confirmedAt : Option String
deriving DecidableEq, Repr

-- What the synthesis says of an interface; its "status" is "candidate", too.
structure InterfaceSketch where
  id              : String
  fromModule      : String
  toModule        : String
  fromCandidateId : String
  toCandidateId   : String
  symbol          : String
  signature       : Json.Dict
  mockFilePath    : String
  mockHash        : String
  confidence      : Rat

structure InterfaceCandidate extends InterfaceSketch where
  status      : CandidateStatus
  confirmedAt : Option String

structure InterfaceMock where
  filePath             : String
  mockHash             : String
  interfaceCandidateId : String
deriving DecidableEq, Repr

-- A row of `module_interfaces`; its "status" is "declared".
structure ModuleInterface where
  id         : String
  fromModule : String
  toModule   : String
  symbol     : String
  signature  : Json.Dict
  mock       : InterfaceMock
  confidence : Rat

inductive ArtifactStatus
  | generated
  | confirmed
  | rejected
  | stale
deriving DecidableEq, Repr

structure ArtifactSketch where
  id                   : String
  interfaceCandidateId : String
  filePath             : String
  fileHash             : String
deriving DecidableEq, Repr

structure MockArtifact extends ArtifactSketch where
  status : ArtifactStatus
deriving DecidableEq, Repr

-- What `synthesize` returns
structure Synthesis where
  runId      : String
  modules    : List ModuleSketch
  interfaces : List InterfaceSketch
  artifacts  : List ArtifactSketch

structure SemanticMap where
  modules    : Table ModuleCandidate fun row => [row.id]
  interfaces : Table InterfaceCandidate fun row => [row.id]
  published  : Table ModuleInterface fun row => [row.id]
  artifacts  : Table MockArtifact fun row => [row.id]
  changes    : List ChangeRow

end Rows

def CandidateStatus.live (status : CandidateStatus) : Bool :=
  status = .candidate ∨ status = .confirmed

def CandidateStatus.decided (status : CandidateStatus) : Bool :=
  status = .confirmed ∨ status = .rejected

def CandidateStatus.value : CandidateStatus → String
  | candidate => "candidate"
  | confirmed => "confirmed"
  | rejected  => "rejected"
  | stale     => "stale"

-- The statuses that a user may set
def CandidateStatus.ofString? : String → Option CandidateStatus
  | "confirmed" => some .confirmed
  | "rejected"  => some .rejected
  | _           => none

def interfaceId (candidateId : String) : String :=
  "iface-" ++ candidateId

-- The row that `_publish_confirmed_interface` writes
def InterfaceCandidate.interface (c : InterfaceCandidate) : ModuleInterface where
  id         := interfaceId c.id
  fromModule := c.fromModule
  toModule   := c.toModule
  symbol     := c.symbol
  signature  := c.signature
  mock       := {
    filePath             := c.mockFilePath
    mockHash             := c.mockHash
    interfaceCandidateId := c.id
  }
  confidence := c.confidence

structure StatusKey where
  id              : String
  fromModule      : String
  toModule        : String
  fromCandidateId : String
  toCandidateId   : String
  symbol          : String
  signature       : String
  mockHash        : String
deriving DecidableEq, Repr

-- `_interface_candidate_status_key`. The text of the signature is only compared.
def InterfaceSketch.statusKey (c : InterfaceSketch) : StatusKey where
  id              := c.id
  fromModule      := c.fromModule
  toModule        := c.toModule
  fromCandidateId := c.fromCandidateId
  toCandidateId   := c.toCandidateId
  symbol          := c.symbol
  signature       := Json.dumps (.obj c.signature)
  mockHash        := c.mockHash

namespace SemanticMap

def empty : SemanticMap where
  modules    := .empty
  interfaces := .empty
  published  := .empty
  artifacts  := .empty
  changes    := []

variable (db : SemanticMap)

def recordChange (entityType entityId operation : String) (payload : Json.Dict) : SemanticMap :=
  { db with changes := db.changes ++ [{ entityType, entityId, operation, payload }] }

-- The row of `previous_modules`
def priorModule (c : ModuleSketch) : Option ModuleCandidate :=
  db.modules.rows.find? fun row => row.id = c.id ∧ row.fileFingerprint = c.fileFingerprint

-- The row of `previous_interfaces`
def priorInterface (c : InterfaceSketch) : Option InterfaceCandidate :=
  db.interfaces.rows.find? fun row => row.statusKey = c.statusKey

-- `_publish_confirmed_interface`
def publishConfirmedInterface (candidateId : String) : SemanticMap :=
  match db.interfaces.lookup candidateId with
  | none     => db
  | some row => { db with published := db.published.replace row.interface }

-- `_revoke_candidate_interface`
def revokeCandidateInterface (candidateId : String) : SemanticMap :=
  { db with published := db.published.delete (·.id = interfaceId candidateId) }

-- `_revoke_stale_candidate_interfaces`
def revokeStaleCandidateInterfaces : SemanticMap :=
  { db with
    published := db.published.delete fun row =>
      db.interfaces.rows.any fun c => c.status = .stale ∧ row.id = interfaceId c.id
  }

-- The statements of a refresh before the generated rows are inserted
def markStale : SemanticMap :=
  let marked := { db with
    modules    := db.modules.modify (·.status.live) ({ · with status := .stale }) (Table.keep fun _ => rfl)
    interfaces := db.interfaces.modify (·.status.live) ({ · with status := .stale }) (Table.keep fun _ => rfl)
  }.revokeStaleCandidateInterfaces
  { marked with
    artifacts := marked.artifacts.modify
      (fun row => row.status = .generated ∨ row.status = .confirmed) ({ · with status := .stale })
      (Table.keep fun _ => rfl)
  }

def insertModule (prior : Option ModuleCandidate) (c : ModuleSketch) : SemanticMap :=
  let status := ((prior.map (·.status)).filter (·.decided)).getD .candidate
  let confirmedAt := if status = .confirmed then prior.bind (·.confirmedAt) else none
  { db with modules := db.modules.replace { c with status, confirmedAt } }

def insertInterface (prior : Option InterfaceCandidate) (c : InterfaceSketch) : SemanticMap :=
  let status := ((prior.map (·.status)).filter (·.decided)).getD .candidate
  let confirmedAt := if status = .confirmed then prior.bind (·.confirmedAt) else none
  let inserted := { db with interfaces := db.interfaces.replace { c with status, confirmedAt } }
  if status = .confirmed then inserted.publishConfirmedInterface c.id else inserted

-- The candidate and its artifacts after a decision of the user
def markInterface (candidateId : String) (status : CandidateStatus) (confirmedAt : Option String) : SemanticMap :=
  { db with
    interfaces := db.interfaces.modify (·.id = candidateId) ({ · with status, confirmedAt })
      (Table.keep fun _ => rfl)
    artifacts  := db.artifacts.modify (·.interfaceCandidateId = candidateId)
      ({ · with status := if status = CandidateStatus.confirmed then ArtifactStatus.confirmed else .rejected })
      (Table.keep fun _ => rfl)
  }

-- The candidate of the artifact has to be there.
def insertArtifact (a : ArtifactSketch) : Except Error SemanticMap :=
  match db.interfaces.lookup a.interfaceCandidateId with
  | none   => .error .integrity
  | some c =>
    let status :=
      match c.status with
      | .confirmed => ArtifactStatus.confirmed
      | .rejected  => .rejected
      | _          => .generated
    .ok { db with artifacts := db.artifacts.replace { a with status } }

end SemanticMap

-- `_refresh_semantic_map_candidates`
def refreshSemanticMapCandidates (generated : Synthesis) (reason : String) (db : SemanticMap) :
    Except Error SemanticMap := do
  let modules := generated.modules.foldl (fun t c => t.insertModule (db.priorModule c) c) db.markStale
  let interfaces := generated.interfaces.foldl (fun t c => t.insertInterface (db.priorInterface c) c) modules
  let artifacts ← generated.artifacts.foldlM SemanticMap.insertArtifact interfaces
  return artifacts.recordChange "semantic_map_run" generated.runId "ready" [
    ("module_candidates", .num generated.modules.length),
    ("module_interface_candidates", .num generated.interfaces.length), ("reason", .str reason)]

def setModuleCandidateStatus (candidateId status actor now : String) (db : SemanticMap) :
    Except Error SemanticMap :=
  match CandidateStatus.ofString? status with
  | none     =>
    .error <| .validation "module_candidate" "Unsupported module candidate status" [("status", .str status)]
  | some set =>
    match db.modules.lookup candidateId with
    | none     => .error <| .notFound "module_candidate" "Module candidate not found" []
    | some row =>
      let confirmedAt := if set = .confirmed then some now else none
      .ok <| { db with
        modules := db.modules.modify (·.id = candidateId) ({ · with status := set, confirmedAt })
          (Table.keep fun _ => rfl)
      }.recordChange "module_candidate" candidateId status [("actor", .str actor), ("module_id", .str row.moduleId)]

-- `contentHash` is `_file_content_hash`, empty for a path that is no file.
def setModuleInterfaceCandidateStatus (contentHash : String → String) (candidateId status actor now : String)
    (db : SemanticMap) : Except Error SemanticMap :=
  match CandidateStatus.ofString? status with
  | none     =>
    .error <| .validation "module_interface_candidate" "Unsupported interface candidate status"
      [("status", .str status)]
  | some set =>
    match db.interfaces.lookup candidateId with
    | none     => .error <| .notFound "module_interface_candidate" "Interface candidate not found" []
    | some row => do
      let mockHash := contentHash row.mockFilePath
      raiseIf (set = .confirmed ∧ (mockHash = "" ∨ mockHash ≠ row.mockHash)) <|
        .conflict "module_interface_candidate" "Interface mock artifact is stale" "interface_mock_stale"
          [("candidate_id", .str candidateId), ("mock_file_path", .str row.mockFilePath)]
      let updated := db.markInterface candidateId set (if set = .confirmed then some now else none)
      let published := if set = .confirmed then updated.publishConfirmedInterface candidateId
        else updated.revokeCandidateInterface candidateId
      return published.recordChange "module_interface_candidate" candidateId status [("actor", .str actor),
        ("from_module", .str row.fromModule), ("to_module", .str row.toModule)]

-- The calls, each a transaction of its own
inductive SemanticCall
  | refresh (generated : Synthesis) (reason : String)
  | setModule (candidateId status actor now : String)
  | setInterface (contentHash : String → String) (candidateId status actor now : String)

namespace SemanticMap

def call (db : SemanticMap) : SemanticCall → SemanticMap
  | .refresh generated reason          => (refreshSemanticMapCandidates generated reason db).orElseKeep db
  | .setModule id status actor now      => (setModuleCandidateStatus id status actor now db).orElseKeep db
  | .setInterface hash id status actor now =>
    (setModuleInterfaceCandidateStatus hash id status actor now db).orElseKeep db

def after (calls : List SemanticCall) : SemanticMap :=
  calls.foldl call empty

end SemanticMap
end ProjectMap
