import Mathlib.Logic.Function.Basic
import BridleModel.Library.Execution

-- The fingerprints of constraint files, found by modification time and size: calls of `get_or_scan` next to each other
-- and next to writers of the files.
namespace ConstraintCache

variable {τ γ : Type}

-- What is read off a content, and `_ensure_within_workspace`
structure Env (γ : Type) where
  size     : γ → Nat
  sha256   : γ → String
  skeleton : γ → String
  within   : String → Bool

structure Entry (τ : Type) where
  path             : String
  mtime            : τ
  size             : Nat
  sha256           : String
  metadataSkeleton : String
  lastScannedAt    : String
  cacheHit         : Bool

structure Version (τ γ : Type) where
  mtime   : τ
  content : γ

abbrev Store (τ : Type) :=
  String → Option (Entry τ)

-- Where a call stands. `store` is what it has loaded, `versions` the number of versions of the file when it returned.
inductive Position (τ : Type)
  | statted (mtime : τ) (size : Nat)
  | loaded (mtime : τ) (size : Nat) (store : Store τ)
  | hashed (mtime : τ) (size : Nat) (store : Store τ) (sha256 : String)
  | scanned (store : Store τ) (entry : Entry τ)
  | returned (entry : Entry τ) (versions : Nat)
  | raised

-- `since` is the version of the file that `stat` has seen; it is kept for the statements only.
structure Lookup (τ : Type) where
  path     : String
  since    : Nat
  position : Position τ

-- The versions of each file, with `none` where there is no file; the last one is there now.
structure World (τ γ : Type) where
  files   : String → List (Option (Version τ γ))
  store   : Store τ
  lookups : Nat → Option (Lookup τ)

inductive Event (τ γ : Type)
  | write (path : String) (version : Version τ γ)
  | remove (path : String)
  | damage
  | stat (id : Nat) (path : String)
  | load (id : Nat) (readable : Bool)
  | hash (id : Nat)
  | skeleton (id : Nat) (readable : Bool) (now : String)
  | save (id : Nat)

namespace World

variable [DecidableEq τ] (env : Env γ) (w : World τ γ)

def current (path : String) : Option (Version τ γ) :=
  (w.files path).getLast?.join

def setFile (path : String) (version : Option (Version τ γ)) : World τ γ :=
  { w with files := Function.update w.files path (w.files path ++ [version]) }

def setLookup (id : Nat) (l : Lookup τ) : World τ γ :=
  { w with lookups := Function.update w.lookups id (some l) }

def move (id : Nat) (l : Lookup τ) (position : Position τ) : World τ γ :=
  w.setLookup id { l with position }

def answer (id : Nat) (l : Lookup τ) (entry : Entry τ) : World τ γ :=
  w.move id l (.returned entry (w.files l.path).length)

def hit (cached : Option (Entry τ)) (mtime : τ) (size : Nat) (valid : String → Bool) : Option (Entry τ) :=
  match cached with
  | none       => none
  | some entry =>
    if entry.mtime = mtime ∧ entry.size = size ∧ valid entry.sha256 then some { entry with cacheHit := true } else none

-- The resolved path of a new call is looked at
def stat (id : Nat) (path : String) : World τ γ :=
  let since := (w.files path).length - 1
  match w.current path with
  | some version =>
    if env.within path then w.setLookup id ⟨path, since, .statted version.mtime (env.size version.content)⟩
    else w.setLookup id ⟨path, since, .raised⟩
  | none         => w.setLookup id ⟨path, since, .raised⟩

-- `_load_store` and the first check
def load (id : Nat) (readable : Bool) (l : Lookup τ) (mtime : τ) (size : Nat) : World τ γ :=
  let store : Store τ := if readable then w.store else fun _ => none
  match hit (store l.path) mtime size (· ≠ "") with
  | some entry => w.answer id l entry
  | none       => w.move id l (.loaded mtime size store)

-- `_file_sha256` and the second check
def hash (id : Nat) (l : Lookup τ) (mtime : τ) (size : Nat) (store : Store τ) : World τ γ :=
  match w.current l.path with
  | none         => w.move id l .raised
  | some version =>
    let sha256 := env.sha256 version.content
    match hit (store l.path) mtime size (· = sha256) with
    | some entry => w.answer id l entry
    | none       => w.move id l (.hashed mtime size store sha256)

-- `_metadata_skeleton`
def skeleton (id : Nat) (readable : Bool) (now : String) (l : Lookup τ) (mtime : τ) (size : Nat) (store : Store τ)
    (sha256 : String) : World τ γ :=
  let metadataSkeleton :=
    match w.current l.path with
    | some version => if readable then env.skeleton version.content else ""
    | none         => ""
  let entry : Entry τ :=
    {
      path             := l.path
      mtime            := mtime
      size             := size
      sha256           := sha256
      metadataSkeleton := metadataSkeleton
      lastScannedAt    := now
      cacheHit         := false
    }
  w.move id l (.scanned store entry)

-- `_save_store`
def save (id : Nat) (l : Lookup τ) (store : Store τ) (entry : Entry τ) : World τ γ :=
  { w with store := Function.update store l.path (some entry) }.answer id l entry

def step : Event τ γ → Option (World τ γ)
  | .write path version       => some (w.setFile path (some version))
  | .remove path              => some (w.setFile path none)
  | .damage                   => some { w with store := fun _ => none }
  | .stat id path             => if (w.lookups id).isSome then none else some (w.stat env id path)
  | .load id readable         =>
    match w.lookups id with
    | some l =>
      match l.position with
      | .statted mtime size => some (w.load id readable l mtime size)
      | _                   => none
    | none   => none
  | .hash id                  =>
    match w.lookups id with
    | some l =>
      match l.position with
      | .loaded mtime size store => some (w.hash env id l mtime size store)
      | _                        => none
    | none   => none
  | .skeleton id readable now =>
    match w.lookups id with
    | some l =>
      match l.position with
      | .hashed mtime size store sha256 => some (w.skeleton env id readable now l mtime size store sha256)
      | _                               => none
    | none   => none
  | .save id                  =>
    match w.lookups id with
    | some l =>
      match l.position with
      | .scanned store entry => some (w.save id l store entry)
      | _                    => none
    | none   => none

end World

-- The files are any, with an empty cache and no calls.
def cacheSystem [DecidableEq τ] (env : Env γ) : TransitionSystem (World τ γ) (Event τ γ) where
  init w := (∀ path, (w.files path).length ≤ 1) ∧ (∀ path, w.store path = none) ∧ ∀ id, w.lookups id = none
  step w := w.step env

end ConstraintCache
