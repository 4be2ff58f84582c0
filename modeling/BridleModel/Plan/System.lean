import BridleModel.Library.Execution
import BridleModel.Plan.Contract
import BridleModel.Plan.Verification

namespace Plan

-- The calls that anybody can make on the store, in any order. Each is one transaction. An action
-- carries the values that its call reads from the clock and from the token generator.
inductive Action
  | apply (nodeId : String) (event : ModificationEvent) (eventId : String)
      (expectedRevision : Option Int) (payload : Option Json.Dict)
  | freeze (nodeId contractVersion : String) (snapshot : Json.Dict)
  | invalidate (nodeId contractVersion reason : String)
  | enqueue (runId nodeId phase : String) (sourceRevision : Nat) (contractVersion : String)
      (candidateId : Option String) (maxAttempts : Int)
  | claim (runId : String) (now : Timestamp) (leaseSeconds : Int) (leaseToken : String)
  | renew (runId leaseToken : String) (now : Timestamp) (leaseSeconds : Int)
  | defer (runId leaseToken errorCode : String) (now : Timestamp) (maxAttempts : Option Int)
  | complete (runId leaseToken : String) (outcome : Json.Dict) (errorCode : Option String)

namespace Db

def perform (sha256 : String → String) (db : Db) : Action → Except Error Db
  | .apply n e i r p        => (·.fst) <$> db.apply n e i r p
  | .freeze n v s           => (·.fst) <$> db.freezeTestContract sha256 n v s
  | .invalidate n v r       => (·.fst) <$> db.invalidateTestContract n v r
  | .enqueue r n p s v c m  => (·.fst) <$> db.enqueueVerificationRun r n p s v c m
  | .claim r now s t        => (·.fst) <$> db.claimVerificationRun r now s t
  | .renew r t now s        => (·.fst) <$> db.renewVerificationLease r t now s
  | .defer r t c now m      => (·.fst) <$> db.deferVerificationRun r t c now m
  | .complete r t outcome c => (·.fst) <$> db.completeVerificationRun r t outcome c

-- A call that raises is rolled back.
def after (sha256 : String → String) (db : Db) (a : Action) : Db :=
  (db.perform sha256 a).orElseKeep db

def afterAll (sha256 : String → String) (db : Db) (acts : List Action) : Db :=
  acts.foldl (·.after sha256) db

end Db

def system (sha256 : String → String) : TransitionSystem Db Action where
  init db   := db = .empty
  step db a := some (db.after sha256 a)

theorem system_run {sha256 : String → String} {db : Db} {acts : List Action} :
    (system sha256).run db acts = some (db.afterAll sha256 acts) := by
  induction acts generalizing db
  case nil => rfl
  case cons hi => exact hi

-- Everything that a call can do to the store.
inductive Effect (db : Db) : Action → Db → Prop
  | none : Effect db a db
  | apply (applied : Db.Applied db n e i r row next db') : Effect db (.apply n e i r p) db'
  | freeze (fresh : db.contract? n v = .none) (inactive : db.activeContract? n = .none)
      (insert : db.contracts.insert? ⟨n, v, Json.dumps (.obj s), .frozen, .none⟩ =
        some db'.contracts)
      (workflows : db'.workflows = db.workflows) (events : db'.events = db.events)
      (runs : db'.runs = db.runs) : Effect db (.freeze n v s) db'
  | invalidate (contracts : db'.contracts = db.invalidated n v (Python.strip reason))
      (workflows : db'.workflows = db.workflows) (events : db'.events = db.events)
      (runs : db'.runs = db.runs) : Effect db (.invalidate n v reason) db'
  | enqueue (positive : (1 : Int) ≤ m) (source : db.runs.lookup (.source n ph s v) = .none)
      (insert : db.runs.insert? (.enqueued r n ph s v c m) = some runs) :
      Effect db (.enqueue r n ph.value s v c m) { db with runs }
  | claim (run : db.run? r = some row) (free : row.withheld now = false) :
      Effect db (.claim r now s t)
        (db.updateRun r (fun _ => true) (·.claimed now s t) fun _ => RunRow.keys_claimed)
  | renew (run : db.run? r = some row) (owned : row.owned t = true) (guard : g row = true) :
      Effect db (.renew r t now s) (db.updateRun r g (·.renewed now s) fun _ => RunRow.keys_renewed)
  | complete (run : db.run? r = some row) (owned : row.owned t = true) :
      Effect db (.complete r t outcome code)
        (db.updateRun r (·.owned t) (·.completed outcome code) fun _ => RunRow.keys_completed)
  | defer (limited : limit = m.getD row.maxAttempts) (left : row.attempt < limit)
      (run : db.run? r = some row) (owned : row.owned t = true) :
      Effect db (.defer r t code now m) (db.updateRun r (·.owned t)
        (·.deferred limit false retryAt code) fun _ => RunRow.keys_deferred)
  | block (limited : limit = m.getD row.maxAttempts) (exhausted : limit ≤ row.attempt)
      (run : db.run? r = some row) (owned : row.owned t = true)
      (workflow : db.workflow? row.nodeId = some wf)
      (appends : Db.Appends db (Db.retryExhaustedEvent row wf code) wf.testContractVersion db')
      (contracts : db'.contracts = db.contracts)
      (runs : db'.runs = (db.updateRun r (·.owned t) (·.deferred limit true retryAt code)
        fun _ => RunRow.keys_deferred).runs) : Effect db (.defer r t code now m) db'

namespace Db

variable {sha256 : String → String} {db db' : Db} {a : Action}

theorem perform_effect (h : db.perform sha256 a = .ok db') : Effect db a db' := by
  cases a <;> simp only [perform, Except.map_eq_ok_iff, Prod.exists, exists_and_right,
    exists_eq_right] at h <;> have ⟨res, h⟩ := h
  case apply =>
    rcases apply_cases h with ⟨rfl, _⟩ | ⟨_, _, _, _, ha⟩
    · exact .none
    · exact .apply ha
  case freeze =>
    rcases freezeTestContract_cases h with rfl | ⟨hc, ha, hw, he, hr, hi⟩
    · exact .none
    · exact .freeze hc ha hi hw he hr
  case invalidate =>
    rcases invalidateTestContract_cases h with rfl | ⟨hw, he, hr, hc⟩
    · exact .none
    · exact .invalidate hc hw he hr
  case enqueue =>
    have ⟨ph, hp, _, _, hcases⟩ := enqueueVerificationRun_cases h
    subst hp
    rcases hcases with ⟨rfl, _⟩ | ⟨hs, rfl, runs, hi, rfl⟩
    · exact .none
    · exact .enqueue (enqueueVerificationRun_positive h) hs hi
  case claim =>
    have ⟨row, hr, hcases⟩ := claimVerificationRun_cases h
    rcases hcases with ⟨_, rfl, _⟩ | ⟨hf, _, rfl⟩
    · exact .none
    · exact .claim hr hf
  case renew =>
    have ⟨row, hr, ho, g, hg, he⟩ := renewVerificationLease_cases h
    exact he ▸ .renew hr ho hg
  case complete =>
    have ⟨row, hr, hcases⟩ := completeVerificationRun_cases h
    rcases hcases with ⟨_, rfl, _⟩ | ⟨ho, _, rfl⟩
    · exact .none
    · exact .complete hr ho
  case defer =>
    have ⟨row, retryAt, hr, ho, hcases⟩ := deferVerificationRun_cases h
    dsimp only at hcases
    rcases hcases with ⟨he, rfl⟩ | ⟨he, hb⟩
    · rw [he]
      exact .defer rfl (not_le.mp (of_decide_eq_false he)) hr ho
    · have ⟨hrn, hct, wf, hw, ha⟩ := blockVerificationWorkflow_ok hb
      rw [he] at hrn
      exact .block rfl (of_decide_eq_true he) hr ho hw { ha with } hct hrn

theorem after_effect : Effect db a (db.after sha256 a) := by
  unfold after
  cases h : db.perform sha256 a
  case error => exact .none
  case ok    => exact perform_effect h

end Db

-- Two test contracts of one node that differ in the map sequence number, and runs under them.
namespace Sample

def contract (mapSeq : Int) : Json.Dict := [
  ("schema", .str "bridle.test_contract/v1"),
  ("test_files", .arr [.obj [("path", .str "test_node.py"), ("sha256", .str "00")]]),
  ("cases", .arr [.obj [("case_id", .str "case"), ("node_id", .str "node")]]),
  ("commands", .arr [
    .obj [
      ("command_id", .str "cmd"), ("argv", .arr [.str "pytest"]), ("raw_command", .str "pytest"),
      ("test_entity_id", .str "node"), ("map_seq", .num mapSeq)
    ]
  ]),
  ("expected_failure_case_ids", .arr [.str "case"]),
  ("baseline_hash", .str "base"),
  ("map_seq", .num mapSeq),
  ("boundary_fingerprint", .str "boundary"),
  ("image_version", .str "image")
]

def version₁ : String :=
  "d7f9f7f5a1a29d4173890234944eac13ceeb40f4d221736d19bb54b369cebed3"

def version₂ : String :=
  "f2b9ae8ec3111c7150fbec2c771124951e2e57959c37519f37a624b2d5e88a40"

-- SHA-256 on the texts that are hashed in the sample runs.
def hashes : List (String × String) := [
  (Json.dumps (.obj (contract 1)), version₁),
  (Json.dumps (.obj (contract 2)), version₂),
  ("node:red:3:" ++ version₁, "14ed840374288e1c19eae0a778f479e78eaf397d0aa80c1b3d8f84ea755241e4"),
  ("node:red:7:" ++ version₂, "2a81622a272d682164e891f9dc4daa75c59a70a1f2bb579c968008f6fc3ea20b")
]

def sha256 (text : String) : String :=
  ((hashes.find? (·.fst = text)).map (·.snd)).getD ""

def freeze₁ : Action :=
  .freeze "node" version₁ (("contract_version", .str version₁) :: contract 1)

def freeze₂ : Action :=
  .freeze "node" version₂ (("contract_version", .str version₂) :: contract 2)

def publish : List Action := [
  freeze₁,
  .apply "node" .start "e1" none none,
  .apply "node" .testContractApproved "e2" none none,
  .apply "node" .redAllowed "e3" none none,
  .apply "node" .redVerificationStarted "e4" none none,
  .apply "node" .redConfirmed "e5" none none,
  .apply "node" .implementationStarted "e6" none none,
  .apply "node" .submitted "e7" none none,
  .apply "node" .finalVerificationStarted "e8" none none,
  .apply "node" .finalVerificationPassed "e9" none none,
  .apply "node" .published "e10" none none
]

def outcome : Json.Dict :=
  [("status", .str "passed")]

def verify : List Action := [
  .enqueue "run" "node" "red" 3 version₁ none 5,
  .claim "run" 0 60 "token",
  .complete "run" "token" outcome none
]

end Sample
end Plan
