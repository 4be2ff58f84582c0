import Mathlib.Data.List.Basic
import Mathlib.Logic.Function.Basic
import BridleModel.Library.Orders
import BridleModel.Python.Text

namespace Outbox

inductive OutboxError
  | pathOutsideWorkspace
  | pathDenied
  | value -- ValueError
  | integrity -- sqlite3.IntegrityError
deriving DecidableEq, Repr

section Path

-- `PurePosixPath(raw).parts` of a relative path
def pathParts (raw : List Char) : List (List Char) :=
  (raw.splitOn '/').filter fun part => part ≠ [] ∧ part ≠ ['.']

def asPosix (parts : List (List Char)) : String :=
  if parts = [] then "." else String.ofList (['/'].intercalate parts)

-- `_normalize_path`
def normalizePath (value : String) : Except OutboxError String :=
  let raw := (Python.strip value).toList
  let parts := pathParts raw
  if raw = [] ∨ raw.head? = some '/' ∨ '\\' ∈ raw ∨ ['.', '.'] ∈ parts then
    .error .pathOutsideWorkspace
  else if parts.head? = some ".bridle".toList then
    .error .pathDenied
  else
    .ok (asPosix parts)

-- Normalization strips the text before it takes the path apart, and not the parts.
example : normalizePath "a /" = .ok "a " ∧ normalizePath "a " = .ok "a" := by decide

-- `target.with_name(f".{target.name}{suffix}")` relative to the project root; the project root itself
-- has no name in it.
def stagingPath (path suffix : String) : Except OutboxError String :=
  if path = "." then
    .error .value
  else
    let reversed := path.toList.reverse
    let name := (reversed.takeWhile (· ≠ '/')).reverse
    let parent := (reversed.dropWhile (· ≠ '/')).reverse
    .ok <| String.ofList (parent ++ '.' :: name ++ suffix.toList)

section Staging

variable {path suffix staging : String}

theorem stagingPath_length (h : stagingPath path suffix = .ok staging) :
    staging.toList.length = path.toList.length + 1 + suffix.toList.length := by
  unfold stagingPath at h
  split at h
  case isTrue => cases h
  case isFalse =>
    cases h
    have hp := congrArg List.length <|
      List.takeWhile_append_dropWhile (p := (· ≠ '/')) (l := path.toList.reverse)
    simp only [List.length_append, List.length_reverse] at hp
    simp only [String.toList_ofList, List.length_append, List.length_cons, List.length_reverse]
    omega

theorem stagingPath_ne (h : stagingPath path suffix = .ok staging) : staging ≠ path := by
  rintro rfl
  have := stagingPath_length h
  omega

theorem stagingPath_ne_empty (h : stagingPath path suffix = .ok staging) : staging ≠ "" := by
  rintro rfl
  have := stagingPath_length h
  simp only [String.toList_empty, List.length_nil] at this
  omega

end Staging
end Path

abbrev Bytes :=
  List UInt8

def encode (text : String) : Bytes :=
  text.toUTF8.toList

-- The regular files of the project by their relative paths.
abbrev Files :=
  String → Option Bytes

namespace Files

variable {files files' : Files} {path path' src dst : String} {content : Bytes}

def write (files : Files) (path : String) (content : Bytes) : Files :=
  Function.update files path (some content)

-- `Path.unlink(missing_ok=True)`
def unlink (files : Files) (path : String) : Files :=
  Function.update files path none

-- `os.replace`; `none` is the `OSError` of a missing source.
def replace (files : Files) (src dst : String) : Option Files :=
  (files src).map fun content => (files.unlink src).write dst content

@[simp]
theorem write_self : files.write path content path = some content :=
  Function.update_self ..

theorem write_ne (h : path' ≠ path) : files.write path content path' = files path' :=
  Function.update_of_ne h ..

@[simp]
theorem unlink_self : files.unlink path path = none :=
  Function.update_self ..

theorem unlink_ne (h : path' ≠ path) : files.unlink path path' = files path' :=
  Function.update_of_ne h ..

theorem unlink_eq_self (h : files path = none) : files.unlink path = files := by
  rw [unlink, ← h, Function.update_eq_self]

end Files

section Digest

-- `hashlib.sha256(content).hexdigest()`
variable (sha256 : Bytes → String)

def missingDigest : String :=
  "missing:"

def bytesDigest (content : Bytes) : String :=
  "sha256:" ++ sha256 content

-- `file_digest` of what is at a path
def fileDigest : Option Bytes → String
  | none         => missingDigest
  | some content => bytesDigest sha256 content

variable {sha256} {content content' : Bytes}

theorem bytesDigest_ne_missing : bytesDigest sha256 content ≠ missingDigest := by
  intro h
  have := congrArg (·.toList.head?) h
  simp [bytesDigest, missingDigest] at this

theorem bytesDigest_inj (h : bytesDigest sha256 content = bytesDigest sha256 content') :
    sha256 content = sha256 content' := by
  have := congrArg String.toList h
  simpa [bytesDigest, String.toList_inj] using this

end Digest
end Outbox
