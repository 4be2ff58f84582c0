import Mathlib.Data.Prod.Lex
import BridleModel.Container.Entrypoint
import BridleModel.Container.Workset
import BridleModel.Json.Canonical
import BridleModel.Library.Except
import BridleModel.Library.Execution
import BridleModel.Library.SortBy
import BridleModel.Library.Table

-- The workspace of a candidate and the submissions that are frozen from it.
namespace Container

-- The regular files below a directory with their contents
abbrev Tree :=
  Table (String × String) fun file => [file.fst]

namespace Tree

variable (t : Tree) (path content : String)

def read : Option String :=
  (t.lookup path).map (·.snd)

def write : Tree :=
  t.replace (path, content)

def remove : Tree :=
  t.delete (·.fst = path)

-- `_tree_hashes`
def hashes (sha256 : String → String) : Hashes :=
  t.rows.map fun file => (file.fst, sha256 file.snd)

end Tree

section Workspace

structure Workspace where
  project  : Tree
  baseline : Tree
  mocks    : Tree

structure CandidateIdentity where
  candidateId         : String
  baseMapSeq          : Int
  boundaryFingerprint : String
  imageVersion        : String
deriving DecidableEq, Repr

-- `CandidateSetup` with the trees on the disk
structure Candidate extends CandidateIdentity, Workspace where
  writeSet      : List String
  readSet       : List String
  readonlyFiles : List String

-- One turn of the loop over the entries
def copyEntry (files : Files) (writeSet : List String) (w : Workspace) (entry : WorksetFileEntry) :
    Except WorksetError Workspace :=
  let rel := entry.relativePath
  match files rel with
  | none         => .error { path := rel, reason := "missing source" }
  | some content =>
    let placed :=
      if entry.kind = .mock then { w with mocks := w.mocks.write rel content }
      else { w with project := w.project.write rel content }
    .ok <| if rel ∈ writeSet then { placed with baseline := w.baseline.write rel content } else placed

-- `build_candidate_workspace`: the directories are empty before the entries are copied.
def buildCandidateWorkspace (sha256 : String → String) (files : Files) (identity : CandidateIdentity)
    (workset : MapWorksetInput) : Except WorksetError Candidate := do
  let resolved ← resolve sha256 files workset
  let workspace ← resolved.entries.foldlM (copyEntry files resolved.writeSet) ⟨.empty, .empty, .empty⟩
  return { identity, workspace, resolved with }

end Workspace

section Patches

inductive ChangeType
  | add
  | remove
  | modify
  | rename
deriving DecidableEq, Repr

structure Patch where
  path          : String
  changeType    : ChangeType
  oldPath       : Option String := none
  baseHash      : Option String
  candidateHash : Option String
deriving DecidableEq, Repr

variable (base candidate : Hashes)

-- The files of one tree that the other one lacks, by their path
def missingFrom (paths : List String) (there here : Hashes) : List (String × String) :=
  paths.filterMap fun path => if (Assoc.get here path).isSome then none else (Assoc.get there path).map (path, ·)

-- A removed file is renamed to the first added one with its content that is still free.
def addRename (added : List (String × String)) (renames : List Patch) (file : String × String) : List Patch :=
  let free := added.filter fun new => new.snd = file.snd ∧ new.fst ∉ renames.map (·.path)
  match free with
  | []       => renames
  | new :: _ => renames ++ [{
      path          := new.fst
      changeType    := .rename
      oldPath       := some file.fst
      baseHash      := some file.snd
      candidateHash := some file.snd
    }]

def patchOf (path : String) : Patch where
  path          := path
  changeType    :=
    match Assoc.get base path, Assoc.get candidate path with
    | none, some _ => .add
    | some _, none => .remove
    | _, _         => .modify
  baseHash      := Assoc.get base path
  candidateHash := Assoc.get candidate path

-- `compute_patches`
def computePatches (writeSet : List String) : List String × List Patch :=
  let allPaths := sortedSet (writeSet ++ base.map (·.fst) ++ candidate.map (·.fst))
  let removed := missingFrom allPaths base candidate
  let added := missingFrom allPaths candidate base
  let renames := removed.foldl (addRename added) []
  let changed := allPaths.filter fun path => Assoc.get base path ≠ Assoc.get candidate path
  let other := changed.filter fun path => some path ∉ renames.map (·.oldPath) ∧ path ∉ renames.map (·.path)
  (changed, SortBy.sortBy (·.path) (other.map (patchOf base candidate) ++ renames))

end Patches

section Submissions

structure CandidateSubmission extends CandidateIdentity where
  submissionId      : String
  revision          : Nat
  baseTreeHash      : String
  candidateTreeHash : String
  changedPaths      : List String
  baseHashes        : Hashes
  candidateHashes   : Hashes
deriving DecidableEq, Repr

inductive SubmissionValidation
  | valid
  | invalid (errorCode : String)
deriving DecidableEq, Repr

variable (sha256 : String → String) (c : Candidate)

def hashesJson (hashes : Hashes) : Json :=
  .obj (hashes.map fun file => (file.fst, .str file.snd))

-- `_tree_hash`
def treeHash (hashes : Hashes) : String :=
  sha256 (Json.dumps (hashesJson hashes))

-- The "identity" that names a submission
def submissionIdentity (candidateId : String) (revision : Nat) (baseTreeHash candidateTreeHash : String) : Json := .obj [
  ("candidate_id", .str candidateId),
  ("revision", .num revision),
  ("base_tree_hash", .str baseTreeHash),
  ("candidate_tree_hash", .str candidateTreeHash)
]

def sortedHashes (hashes : Hashes) : Hashes :=
  SortBy.sortBy (fun file : String × String => toLex file) hashes

-- `freeze_submission`; `revisions` are those of the files that are there.
def Candidate.freezeSubmission (revisions : List Nat) : CandidateSubmission :=
  let base := c.baseline.hashes sha256
  let candidate := c.project.hashes sha256
  let revision := revisions.foldl max 0 + 1
  let baseTreeHash := treeHash sha256 base
  let candidateTreeHash := treeHash sha256 candidate
  let identityHash := sha256 (Json.dumps (submissionIdentity c.candidateId revision baseTreeHash candidateTreeHash))
  { c.toCandidateIdentity with
    submissionId      := "submission-" ++ toString revision ++ "-" ++ String.ofList (identityHash.toList.take 16)
    revision
    baseTreeHash
    candidateTreeHash
    changedPaths      := (computePatches base candidate c.writeSet).fst
    baseHashes        := sortedHashes base
    candidateHashes   := sortedHashes candidate }

-- `validate_submission`
def Candidate.validateSubmission (submission : CandidateSubmission) : SubmissionValidation :=
  if submission.candidateId ≠ c.candidateId ∨ submission.baseMapSeq ≠ c.baseMapSeq ∨
      submission.boundaryFingerprint ≠ c.boundaryFingerprint ∨ submission.imageVersion ≠ c.imageVersion then
    .invalid "candidate_submission_identity_changed"
  else if treeHash sha256 (c.baseline.hashes sha256) ≠ submission.baseTreeHash then
    .invalid "candidate_baseline_changed"
  else if treeHash sha256 (c.project.hashes sha256) ≠ submission.candidateTreeHash then
    .invalid "candidate_submission_changed"
  else
    .valid

end Submissions

-- What happens to a prepared candidate. A run of the tests brings back the project tree that it leaves.
inductive CandidateAction
  | write (path content : String)
  | remove (path : String)
  | runTests (project : Tree)

def Candidate.act (c : Candidate) : CandidateAction → Candidate
  | .write path content => { c with project := c.project.write path content }
  | .remove path        => { c with project := c.project.remove path }
  | .runTests project   => { c with project }

def candidateSystem (c : Candidate) : TransitionSystem Candidate CandidateAction where
  init s   := s = c
  step s a := some (s.act a)

end Container
