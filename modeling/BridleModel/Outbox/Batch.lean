import BridleModel.Outbox.Commit

namespace Outbox

-- An entry of the argument `changes` of `commit_many` with the random names and the clock value that
-- its intent draws. The new text is `none` if it is not a string.
structure BatchChange where
  changeType : String
  path       : String
  oldPath    : String
  newText    : Option String
  token      : String
  messageId  : String
  now        : String

-- An entry of `normalized_changes`; only a rename has an old path.
structure Item where
  path       : String
  oldPath    : Option String
  changeType : ChangeType
  content    : Option Bytes
  token      : String
  messageId  : String
  now        : String
deriving DecidableEq

-- An entry of `prepared`
structure Prepared where
  item    : Item
  staging : String
  intent  : ChangeIntent
deriving DecidableEq

inductive BatchResult
  | raised (error : OutboxError)
  | busy
  | failed (errorCode : String)
  | ready (changes : List Prepared)
deriving DecidableEq

def ChangeType.ofString? : String → Option ChangeType
  | "add"    => some .add
  | "modify" => some .modify
  | "remove" => some .remove
  | "rename" => some .rename
  | _        => none

namespace Item

def paths (c : Item) : List String :=
  c.path :: c.oldPath.toList

-- `before_target`
def before (c : Item) : String :=
  c.oldPath.getD c.path

def staging (c : Item) : Except OutboxError String :=
  stagingPath c.path (stagingSuffix c.changeType c.token)

end Item

section Validate

def normalizeArgument (value : String) : Except BatchResult String :=
  match normalizePath value with
  | .error e => throw (.raised e)
  | .ok path => return path

-- One round of the first loop of `commit_many`
def BatchChange.item (affected : List String) (raw : BatchChange) : Except BatchResult Item :=
  match ChangeType.ofString? raw.changeType with
  | none            => throw (.failed "invalid_change_type")
  | some changeType => do
    let path ← normalizeArgument raw.path
    let oldPath ←
      (if changeType = .rename then some <$> normalizeArgument raw.oldPath else return none)
    if oldPath = some path then
      throw (.failed "invalid_rename")
    else
      match newContent changeType raw.newText with
      | none         => throw (.failed "missing_patch_text")
      | some content =>
        let ⟨_, _, _, _, token, messageId, now⟩ := raw
        let item : Item := { path, oldPath, changeType, content, token, messageId, now }
        if item.paths.any (· ∈ affected) then
          throw (.failed "duplicate_change_path")
        else
          return item

def validate (affected : List String) : List BatchChange → Except BatchResult (List Item)
  | []             => return []
  | raw :: changes => do
    let item ← raw.item affected
    return item :: (← validate (affected ++ item.paths) changes)

-- `sorted(affected_paths)`
def affectedPaths (items : List Item) : List String :=
  (items.flatMap (·.paths)).insertionSort (· ≤ ·)

end Validate

-- The position of the call in its three loops: what a loop is through with, what it is at, and what is
-- left.
inductive Body
  | reserving (done : List Prepared) (todo : List Item)
  | reserved (done : List Prepared) (p : Prepared) (todo : List Item)
  | writing (done : List Prepared) (p : Prepared) (todo : List Item)
  | staged (done : List Prepared) (p : Prepared) (todo : List Item)
  | replacing (done todo : List Prepared)
  | unlinking (done : List Prepared) (p : Prepared) (todo : List Prepared)
  | marking (done todo : List Prepared)
  | cleaning (done : List Prepared) (p : Prepared) (todo : List Prepared)

-- `reserved_intents` with `staging_paths`
def Body.prepared : Body → List Prepared
  | reserving done _                                      => done
  | reserved done p _ | writing done p _ | staged done p _ => done ++ [p]
  | replacing done todo | marking done todo               => done ++ todo
  | unlinking done p todo | cleaning done p todo          => done ++ p :: todo

-- The paths that the handler has restored stand next to those that it has not.
inductive BatchPosition
  | start
  | working (snapshots : List (String × Option Bytes)) (body : Body)
  | restoring (body : Body) (restored : List String) (rest : List (String × Option Bytes))
  | rewriting (body : Body) (restored : List String) (temporary path : String) (content : Bytes)
    (rest : List (String × Option Bytes))
  | discarding (body : Body) (restored : List String)
  | sweeping (staging : List String)
  | finished (result : BatchResult)

-- A call of `commit_many`. A rollback draws a random name for each path that it rewrites.
structure BatchCall where
  changes  : List BatchChange
  rollback : String → String

section Body

variable (sha256 : Bytes → String) (capacity : Nat)

-- The first statements of the loop body, up to the reservation; `none` is an exception.
def Item.reserve (c : Item) (s : Project) : Option (OutboxDb × Prepared) :=
  match c.staging with
  | .error _    => none
  | .ok staging =>
    match s.db.reserve capacity c.path c.oldPath c.changeType (fileDigest sha256 (s.files c.before))
      (fileDigest sha256 c.content) (some staging) c.messageId c.now with
    | .ok (db, .reserved intent) => some (db, ⟨c, staging, intent⟩)
    | _                          => none

-- The `os.replace` of the second loop
def Prepared.move (p : Prepared) (files : Files) : Option Files :=
  if p.item.content = none then
    if files p.item.path = none then some files else files.replace p.item.path p.staging
  else
    files.replace p.staging p.item.path

-- A durable operation of the loops, with `none` for the position if it raises an exception
def Body.step (s : Project) : Body → Event → Option (Project × Option Body)
  | .reserving done [], .proceed          => some (s, some (.replacing [] done))
  | .reserving done (c :: todo), .proceed =>
    match c.reserve sha256 capacity s with
    | none         => some (s, none)
    | some (db, p) => some ({ s with db }, some (.reserved done p todo))
  | .reserved done p todo, .proceed       =>
    match p.item.content with
    | none   => some (s, some (.staged done p todo))
    | some _ =>
      if s.files p.staging ≠ none then
        some (s, none)
      else
        some ({ s with files := s.files.write p.staging [] }, some (.writing done p todo))
  | .writing done p todo, .write n        =>
    p.item.content.map fun content =>
      ({ s with files := s.files.write p.staging (content.take n) }, some (.writing done p todo))
  | .writing done p todo, .proceed        =>
    p.item.content.map fun content =>
      ({ s with files := s.files.write p.staging content }, some (.staged done p todo))
  | .staged done p todo, .proceed         =>
    match s.db.markCommitting p.intent with
    | (db, none)        => some ({ s with db }, none)
    | (db, some intent) =>
      some ({ s with db }, some (.reserving (done ++ [{ p with intent }]) todo))
  | .replacing done [], .proceed          => some (s, some (.marking [] done))
  | .replacing done (p :: todo), .proceed =>
    match p.move s.files with
    | none       => some (s, none)
    | some files =>
      let next := if p.item.oldPath = none then .replacing (done ++ [p]) todo
        else .unlinking done p todo
      some ({ s with files }, some next)
  | .unlinking done p todo, .proceed      =>
    p.item.oldPath.map fun old =>
      ({ s with files := s.files.unlink old }, some (.replacing (done ++ [p]) todo))
  | .marking done (p :: todo), .proceed   =>
    match s.db.markReady p.intent with
    | (db, none)        => some ({ s with db }, none)
    | (db, some intent) => some ({ s with db }, some (.cleaning done { p with intent } todo))
  | .cleaning done p todo, .proceed       =>
    some ({ s with files := cleanupStaging s.files p.intent }, some (.marking (done ++ [p]) todo))
  | _, .fault                             => some (s, none)
  | _, _                                  => none

end Body

-- `_discard_intents`
def discardIntents (db : OutboxDb) (prepared : List Prepared) : OutboxDb :=
  db.delete fun row => prepared.any (·.intent.messageId = row.messageId)

namespace BatchCall

variable (sha256 : Bytes → String) (capacity : Nat) (call : BatchCall)

-- The validation, the locks (which normalize the paths again) and the snapshots
def begin (files : Files) : BatchPosition :=
  match validate [] call.changes with
  | .error result => .finished result
  | .ok items     =>
    let affected := affectedPaths items
    match affected.mapM normalizePath with
    | .error e => .finished (.raised e)
    | .ok _    => .working (affected.map fun path => (path, files path)) (.reserving [] items)

def temporary (path : String) : Except OutboxError String :=
  stagingPath path (".bridle-rollback-" ++ call.rollback path)

-- Of the handler, `none` is an exception that ends the call where it stands.
def step (s : Project) : BatchPosition → Event → Option (Project × BatchPosition)
  | .start, .proceed                                        => some (s, call.begin s.files)
  -- A lock that somebody else holds
  | .start, .fault                                          =>
    match call.begin s.files with
    | .working _ _ => some (s, .finished .busy)
    | _            => none
  | .working _ (.marking done []), .proceed                 => some (s, .finished (.ready done))
  | .working snapshots body, e                              =>
    (body.step sha256 capacity s e).map fun (s, next) =>
      (s, next.elim (.restoring body [] snapshots) (.working snapshots))
  | .restoring body restored ((path, none) :: rest), .proceed =>
    if path = "." then
      none -- a directory
    else
      some ({ s with files := s.files.unlink path }, .restoring body (restored ++ [path]) rest)
  | .restoring body restored ((path, some content) :: rest), .proceed =>
    match call.temporary path with
    | .error _      => none
    | .ok temporary =>
      if s.files temporary ≠ none then
        none
      else
        some ({ s with files := s.files.write temporary [] },
          .rewriting body restored temporary path content rest)
  | .rewriting body restored temporary path content rest, .write n =>
    some ({ s with files := s.files.write temporary (content.take n) },
      .rewriting body restored temporary path content rest)
  | .rewriting body restored temporary path content rest, .proceed =>
    some ({ s with files := (s.files.unlink temporary).write path content },
      .restoring body (restored ++ [path]) rest)
  | .restoring body restored [], .proceed                   => some (s, .discarding body restored)
  | .discarding body _, .proceed                            =>
    some ({ s with db := discardIntents s.db body.prepared },
      .sweeping (body.prepared.map (·.staging)))
  | .sweeping (staging :: rest), .proceed                   =>
    some ({ s with files := s.files.unlink staging }, .sweeping rest)
  | .sweeping [], .proceed                                  =>
    some (s, .finished (.failed "candidate_publish_failed"))
  | _, _                                                    => none

def system : TransitionSystem (Project × BatchPosition) Event where
  init s   := s.snd = .start
  step s e := call.step sha256 capacity s.fst s.snd e

end BatchCall
end Outbox
