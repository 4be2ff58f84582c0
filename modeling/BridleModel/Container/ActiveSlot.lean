import Mathlib.Data.List.Infix
import Mathlib.Logic.Function.Basic
import BridleModel.Library.Effect

namespace Container.ActiveSlot

section Trees

-- What `os.walk` meets below a directory. A closed directory can't be listed: the walk passes over what it holds.
inductive Entry (γ : Type)
  | file (content : γ)
  | special
  | link
  | folder
  | closed (inside : List (List String × γ))
deriving DecidableEq, Repr

variable {γ : Type}

def Entry.inside : Entry γ → List (List String × γ)
  | closed inside => inside
  | _             => []

-- The entries by their relative paths
abbrev Listing (γ : Type) :=
  List (List String × Entry γ)

-- A directory as the bottom-up walk lists it: nothing comes after a folder in which it lies.
structure Directory (γ : Type) where
  entries : Listing γ
  walk    : entries.Pairwise fun a b => ¬ a.fst <+: b.fst
  rooted  : ∀ a ∈ entries, a.fst ≠ [] ∧ ∀ q ∈ a.fst.inits, q ≠ [] → q ≠ a.fst → (q, .folder) ∈ entries
  hidden  : ∀ a ∈ entries, ∀ f ∈ a.snd.inside, a.fst <+: f.fst ∧ a.fst ≠ f.fst

-- The regular files that are reached without following links
def filesOf (a : List String × Entry γ) : List (List String × γ) :=
  match a.snd with
  | .file content  => [(a.fst, content)]
  | .closed inside => inside
  | _              => []

def Listing.files (l : Listing γ) : List (List String × γ) :=
  l.flatMap filesOf

-- `_SLOT_SUBDIRS`
inductive Subdir
  | project
  | baseline
  | mocks
  | output
  | diagnostics
deriving DecidableEq, Repr

def slotSubdirs : List Subdir :=
  [.project, .baseline, .mocks, .output, .diagnostics]

-- `_COLLECT_SUBDIRS`
def collectSubdirs : List Subdir :=
  [.output, .diagnostics, .project]

-- `_RW_MOUNT_ROOTS`
def rwMountRoots : List Subdir :=
  [.project, .output, .diagnostics]

end Trees

section Operations

inductive Problem
  | permission
  | other
deriving DecidableEq, Repr

-- The calls of the operating system on one tree, `none` as long as its root is missing
inductive Op (γ : Type)
  | unlink (path : List String)
  | rmdir (path : List String)
  | rmtree
  | mkdirRoot
  | mkdir (path : List String)
  | copy (path : List String) (content : γ)
  | refuse (problem : Problem)

variable {γ : Type}

def without (path : List String) (l : Listing γ) : Listing γ :=
  l.filter fun a => a.fst ≠ path

def Op.apply : Op γ → Option (Listing γ) → Except Problem (Option (Listing γ))
  | unlink path, d       => .ok (d.map (without path))
  | rmdir path, d        =>
    if ∃ a ∈ d.getD [], path <+: a.fst ∧ a.fst ≠ path then .error .other else .ok (d.map (without path))
  | rmtree, d            => if (d.getD []).isEmpty then .ok none else .error .permission
  | mkdirRoot, d         => .ok (some (d.getD []))
  | mkdir path, d        => .ok (d.map fun l => if path ∈ l.map (·.fst) then l else (path, .folder) :: l)
  | copy path content, d => .ok (d.map fun l => (path, .file content) :: without path l)
  | refuse problem, _    => .error problem

-- A failure that no tree shows beforehand: the disk, the permissions. A copy may leave a part of the file.
structure Fault (γ : Type) where
  problem : Problem
  part    : Option γ

def Op.fails : Op γ → Fault γ → Option (Listing γ) → Option (Listing γ) × Problem
  | copy path _, ⟨problem, some part⟩, d => (d.map fun l => (path, .file part) :: without path l, problem)
  | _, ⟨problem, _⟩, d                   => (d, problem)

def attempt (ops : List (Op γ)) (faults : Nat → Option (Fault γ)) : Effect (Option (Listing γ)) Problem :=
  Effect.run Op.apply Op.fails ops faults

-- `safe_rmtree`: the links are met while the files before them are already gone.
def removal : Option (Listing γ) → List (Op γ)
  | none   => []
  | some l => l.flatMap remove ++ [.rmtree]
where
  remove (a : List String × Entry γ) : List (Op γ) :=
    match a.snd with
    | .file _ | .special => [.unlink a.fst]
    | .link              => [.refuse .other]
    | .folder            => [.rmdir a.fst]
    | .closed _          => []

-- `_copy_tree_no_links`
def copying (src : Listing γ) : List (Op γ) :=
  .mkdirRoot :: src.reverse.flatMap copy
where
  copy (a : List String × Entry γ) : List (Op γ) :=
    match a.snd with
    | .file content     => [.copy a.fst content]
    | .special          => [.refuse .other]
    | .folder           => [.mkdir a.fst]
    | .link | .closed _ => []

-- `_clear_children`
def clearing (d : Option (Listing γ)) : List (Op γ) :=
  (d.getD []).flatMap clear
where
  clear (a : List String × Entry γ) : List (Op γ) :=
    match a.snd with
    | .file _ | .special | .link => [.unlink a.fst]
    | .folder                    => [.rmdir a.fst]
    | .closed _                  => [.refuse .permission]

-- `_populate`
def populating (src : Option (Listing γ)) (dst : Option (Listing γ)) : List (Op γ) :=
  match src with
  | some src => copying src
  | none     => if dst.isNone then [.mkdirRoot] else []

-- `_collect_one`
def collecting (src : Listing γ) (dst : Option (Listing γ)) : List (Op γ) :=
  removal dst ++ copying src

-- What happens around one mount root: `access` and `again` when its mode is restored, the faults in both attempts
structure Turn (γ : Type) where
  access : Option Problem
  first  : Nat → Option (Fault γ)
  again  : Option Problem
  second : Nat → Option (Fault γ)

-- `_run_mount_root_access`
def runMountRootAccess (turn : Turn γ) (action : Option (Listing γ) → List (Op γ)) :
    Effect (Option (Listing γ)) Problem := fun d =>
  match turn.access with
  | some e => (d, some e)
  | none   =>
    match attempt (action d) turn.first d with
    | (d₁, some .permission) =>
      match turn.again with
      | some e => (d₁, some e)
      | none   => ((attempt (action d₁) turn.second d₁).fst, (attempt (action d₁) turn.second d₁).snd.map fun _ => .other)
    | r => r

-- The mounts that are only read have no second attempt.
def access (n : Subdir) (turn : Turn γ) (action : Option (Listing γ) → List (Op γ)) :
    Effect (Option (Listing γ)) Problem :=
  if n ∈ rwMountRoots then runMountRootAccess turn action
  else Effect.raiseFirst turn.access fun d => attempt (action d) turn.first d

end Operations

section Staging

-- The directories of one candidate and of the slot of its module
structure Staging (γ : Type) where
  candidate : Subdir → Option (Listing γ)
  slot      : Subdir → Option (Listing γ)

variable {γ : Type}

def onSlot (n : Subdir) (a : Effect (Option (Listing γ)) Problem) : Effect (Staging γ) Problem := fun s =>
  ({ s with slot := Function.update s.slot n (a (s.slot n)).fst }, (a (s.slot n)).snd)

def onCandidate (n : Subdir) (a : Effect (Option (Listing γ)) Problem) : Effect (Staging γ) Problem := fun s =>
  ({ s with candidate := Function.update s.candidate n (a (s.candidate n)).fst }, (a (s.candidate n)).snd)

-- `ensure_slot_roots`
def ensureSlotRoots : Effect (Staging γ) Problem := fun s =>
  ({ s with slot := fun n => some ((s.slot n).getD []) }, none)

-- What happens during `prepare_active_slot`: `roots`, `ownership` and `lease` raise before or after the turns.
structure Preparing (γ : Type) where
  roots     : Option Problem
  ownership : Option Problem
  clear     : Subdir → Turn γ
  populate  : Subdir → Turn γ
  lease     : Option Problem

def populate (q : Preparing γ) (n : Subdir) : Effect (Staging γ) Problem := fun s =>
  onSlot n (access n (q.populate n) (populating (s.candidate n))) s

-- `prepare_active_slot`
def prepareActiveSlot (q : Preparing γ) : Effect (Staging γ) Problem :=
  .raiseFirst q.roots <| .seq ensureSlotRoots <| .raiseFirst q.ownership <|
  .seq (.inTurn (fun n => onSlot n (runMountRootAccess (q.clear n) clearing)) slotSubdirs) <|
  .seq (.inTurn (populate q) slotSubdirs) <| .raiseFirst q.lease .done

-- What happens during `collect_active_slot`: `start` raises before the turns.
structure Collecting (γ : Type) where
  start : Option Problem
  turn  : Subdir → Turn γ

def collectOne (q : Collecting γ) (n : Subdir) : Effect (Staging γ) Problem := fun s =>
  match s.slot n with
  | none     => (s, none)
  | some src => onCandidate n (runMountRootAccess (q.turn n) (collecting src)) s

-- `collect_active_slot`
def collectActiveSlot (q : Collecting γ) : Effect (Staging γ) Problem :=
  .raiseFirst q.start (.inTurn (collectOne q) collectSubdirs)

end Staging

end Container.ActiveSlot
