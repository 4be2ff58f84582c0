import BridleModel.Library.Execution
import BridleModel.Outbox.Recover

namespace Outbox

-- A call of `AtomicPatchCommitter.commit` with the random names and the clock value that it draws.
structure CommitCall where
  relativePath : String
  changeType   : ChangeType
  newText      : Option String
  token        : String
  messageId    : String
  now          : String

-- What the call works on: the content is `none` for a file that goes.
structure Locals where
  path    : String
  staging : String
  content : Option Bytes
deriving DecidableEq

inductive CommitResult
  | raised (error : OutboxError)
  | refused (errorCode : String)
  | failed (intent : Option ChangeIntent) (errorCode : String)
  | ready (intent : ChangeIntent)
deriving DecidableEq

-- The position of the call between two durable operations.
inductive Position
  | start
  | reserved (l : Locals) (intent : ChangeIntent)
  | writing (l : Locals) (intent : ChangeIntent)
  | staged (l : Locals) (intent : ChangeIntent)
  | committing (l : Locals) (intent : ChangeIntent)
  | replaced (l : Locals) (intent : ChangeIntent)
  | ready (l : Locals) (intent : ChangeIntent)
  | failing (l : Locals) (intent : ChangeIntent)
  | abandoning (l : Locals) (intent : ChangeIntent)
  | finished (result : CommitResult)
deriving DecidableEq

-- `write` is a part of the staging file that has reached the disk, `fault` an `OSError`.
inductive Event
  | proceed
  | write (length : Nat)
  | fault
deriving DecidableEq

def stagingSuffix (changeType : ChangeType) (token : String) : String :=
  if changeType = .remove then ".bridle-tombstone-" ++ token else ".bridle-stage-" ++ token

-- What the file is to hold: `none` if the text is missing
def newContent (changeType : ChangeType) (newText : Option String) : Option (Option Bytes) :=
  if changeType = .remove then some none else newText.map fun text => some (encode text)

namespace CommitCall

variable (sha256 : Bytes → String) (capacity : Nat) (call : CommitCall)

-- `commit` and `_commit_locked` up to the reservation
def begin (s : Project) : Project × Position :=
  match normalizePath call.relativePath with
  | .error e => (s, .finished (.raised e))
  | .ok path =>
    match newContent call.changeType call.newText with
    | none         => (s, .finished (.failed none "missing_patch_text"))
    | some content =>
      match stagingPath path (stagingSuffix call.changeType call.token) with
      | .error e    => (s, .finished (.raised e))
      | .ok staging =>
        match s.db.reserve capacity path none call.changeType (fileDigest sha256 (s.files path))
          (fileDigest sha256 content) (some staging) call.messageId call.now with
        | .error e                => (s, .finished (.raised e))
        | .ok (db, .refused code) => ({ s with db }, .finished (.refused code))
        | .ok (db, .reserved i)   => ({ s with db }, .reserved ⟨path, staging, content⟩ i)

def step (s : Project) : Position → Event → Option (Project × Position)
  | .start, .proceed          => call.begin sha256 capacity s
  | .reserved l i, .proceed   =>
    match l.content with
    | none   => some (s, .staged l i)
    | some _ =>
      -- `staging.open("x")`
      if s.files l.staging ≠ none then
        some (s, .failing l i)
      else
        some ({ s with files := s.files.write l.staging [] }, .writing l i)
  | .writing l i, .write n    =>
    l.content.map fun content =>
      ({ s with files := s.files.write l.staging (content.take n) }, .writing l i)
  | .writing l i, .proceed    =>
    l.content.map fun content =>
      ({ s with files := s.files.write l.staging content }, .staged l i)
  | .staged l i, .proceed     =>
    match s.db.markCommitting i with
    | (db, none)   => some ({ s with db }, .finished (.refused "outbox_fence_lost"))
    | (db, some i) => some ({ s with db }, .committing l i)
  | .committing l i, .proceed =>
    let moved := if l.content = none then s.files.replace l.path l.staging
      else s.files.replace l.staging l.path
    match moved with
    | none       => some (s, .failing l i)
    | some files => some ({ s with files }, .replaced l i)
  | .replaced l i, .proceed   =>
    match s.db.markReady i with
    | (db, none)   => some ({ s with db }, .finished (.failed none "outbox_fence_lost"))
    | (db, some i) => some ({ s with db }, .ready l i)
  | .ready _ i, .proceed      =>
    some ({ s with files := cleanupStaging s.files i }, .finished (.ready i))
  | .reserved l i, .fault | .writing l i, .fault | .committing l i, .fault => some (s, .failing l i)
  | .failing l i, .proceed    =>
    match s.db.row? i.messageId with
    | none         => some (s, .finished (.failed none "OSError"))
    | some current =>
      if current.state = .reserved then
        some ({ s with files := cleanupStaging s.files current }, .abandoning l current)
      else
        some (s, .finished (.failed current "OSError"))
  | .abandoning _ i, .proceed =>
    some ({ s with db := s.db.abandonReserved i }, .finished (.failed i "OSError"))
  | _, _ => none

def system : TransitionSystem (Project × Position) Event where
  init s   := s.snd = .start
  step s e := call.step sha256 capacity s.fst s.snd e

end CommitCall
end Outbox
