import BridleModel.Container.ActiveSlot
import BridleModel.Json
import BridleModel.Library.Execution
import BridleModel.Library.Interrupted

-- The trust that the host has in the mount roots of an active slot, kept beside the slot in a marker and a baseline.
namespace Container.Trust

open Container.ActiveSlot (Subdir slotSubdirs collectSubdirs rwMountRoots)

section Module

-- A directory with its identity and its permissions
structure Folder where
  dev  : Int
  ino  : Int
  mode : Int
deriving DecidableEq, Repr

inductive Item
  | link (toFolder : Bool)
  | file
  | folder (folder : Folder)
deriving DecidableEq, Repr

inductive Active
  | absent
  | link
  | file
  | folder (slots : Subdir → Option Item)

-- A file that is read as JSON: it can't be opened, is no UTF-8, is no JSON, or has a value.
inductive Text
  | unreadable
  | undecodable
  | malformed
  | json (value : Json)

-- The root directory of a module; `tmp` is the temporary file of the baseline.
structure Module where
  active   : Active
  marker   : Option Text
  baseline : Option Text
  tmp      : Bool

-- `_entry_metadata` of a slot directory
def Module.slot (m : Module) (n : Subdir) : Option Item :=
  match m.active with
  | .folder slots => slots n
  | _             => none

end Module

section Reading

-- What is read, with `none` in place of the errors that are caught; the outer `none` is `UnicodeDecodeError`.
def Text.read : Text → Option (Option Json)
  | .unreadable | .malformed => some none
  | .undecodable             => none
  | .json value              => some (some value)

def isText (value : Option Json) (text : String) : Bool :=
  match value with
  | some (.str s) => s = text
  | _             => false

-- `_json_int_or_none`
def jsonInt (value : Option Json) : Option Int :=
  match value with
  | some (.num n) => some n
  | _             => none

def trustMarkerSchema : String :=
  "bridle.rw_mount_trust_marker/v1"

def isTrustInitialized (m : Module) : Option Bool :=
  match m.marker with
  | none      => some false
  | some text => text.read.map fun
    | some (.obj payload) =>
      isText (Json.Dict.get payload "schema") trustMarkerSchema ∧ jsonInt (Json.Dict.get payload "version") = some 2 ∧
        isText (Json.Dict.get payload "state") "ready"
    | _                   => false

def rootName : Subdir → String
  | .project     => "project"
  | .baseline    => "baseline"
  | .mocks       => "mocks"
  | .output      => "output"
  | .diagnostics => "diagnostics"

-- An entry of the baseline that `_validate_baseline_root_entry` accepts
def rootEntry (roots : Option Json) (n : Subdir) : Option Folder :=
  match roots with
  | some (.obj roots) =>
    match Json.Dict.get roots (rootName n) with
    | some (.obj entry) => do
      let dev ← jsonInt (Json.Dict.get entry "dev")
      let ino ← jsonInt (Json.Dict.get entry "ino")
      let mode ← jsonInt (Json.Dict.get entry "mode")
      if dev < 0 ∨ ino < 0 ∨ mode < 0 ∨ 0o7777 < mode then none else some { dev, ino, mode }
    | _                 => none
  | _                 => none

def rootsPayloadComplete (roots : Option Json) : Bool :=
  rwMountRoots.all fun n => (rootEntry roots n).isSome

def loadReadyRwMountBaseline (m : Module) : Option (Option Json.Dict) :=
  match m.baseline with
  | none      => some none
  | some text => text.read.map fun
    | some (.obj payload) =>
      if isText (Json.Dict.get payload "state") "ready" ∧ jsonInt (Json.Dict.get payload "version") = some 2 ∧
          rootsPayloadComplete (Json.Dict.get payload "roots") then
        some payload
      else
        none
    | _                   => none

inductive TrustState
  | baselineIncomplete
  | ready
  | trustInvalid
  | absent
deriving DecidableEq, Repr

-- `_classify_rw_mount_trust_state`
def classify (m : Module) : Option TrustState :=
  if m.tmp ∧ m.baseline.isNone then some .baselineIncomplete
  else do
    let initialized ← isTrustInitialized m
    if initialized then
      let payload ← loadReadyRwMountBaseline m
      return if payload.isSome then .ready else .trustInvalid
    else if m.marker.isSome ∨ m.baseline.isSome then
      return .trustInvalid
    else
      return .absent

end Reading

section Operations

-- The operations of the host on the files of a module. An access is whatever is read or changed in a slot directory.
inductive Op
  | mkdirActive
  | mkdirSlot (n : Subdir) (folder : Folder)
  | writeTmp
  | commitBaseline (roots : Subdir → Folder)
  | writeMarkerTmp
  | commitMarker
  | chmod (n : Subdir) (mode : Int)
  | access (n : Subdir)
  | chown (n : Subdir)

def markerPayload : Json :=
  .obj [("schema", .str trustMarkerSchema), ("version", .num 2), ("state", .str "ready")]

def entryPayload (folder : Folder) : Json :=
  .obj [("dev", .num folder.dev), ("ino", .num folder.ino), ("mode", .num folder.mode)]

def baselinePayload (roots : Subdir → Folder) : Json :=
  .obj [
    ("version", .num 2),
    ("state", .str "ready"),
    ("roots", .obj (rwMountRoots.map fun n => (rootName n, entryPayload (roots n))))
  ]

def Module.setSlot (m : Module) (n : Subdir) (item : Item) : Module :=
  match m.active with
  | .folder slots => { m with active := .folder (Function.update slots n (some item)) }
  | _             => m

def Op.apply : Op → Module → Module
  | mkdirActive, m          => { m with active := .folder fun _ => none }
  | mkdirSlot n folder, m   => m.setSlot n (.folder folder)
  | writeTmp, m             => { m with tmp := true }
  | commitBaseline roots, m => { m with baseline := some (.json (baselinePayload roots)), tmp := false }
  | writeMarkerTmp, m       => m
  | commitMarker, m         => { m with marker := some (.json markerPayload) }
  | chmod n mode, m         =>
    match m.slot n with
    | some (.folder folder) => m.setSlot n (.folder { folder with mode })
    | _                     => m
  | access _, m | chown _, m => m

abbrev Host :=
  Program Module Op

def act (op : Op) : Host PUnit :=
  Program.perform Op.apply op

-- How an action on a slot directory ends; all but `PermissionError` leaves the call.
inductive Outcome
  | done
  | permission
  | raised
deriving DecidableEq, Repr

inductive Phase
  | clear
  | populate
  | lease
  | collect
deriving DecidableEq, Repr

-- What a call takes from outside: how many operations it does before it crashes, the directories that `mkdir` makes, the
-- outcome of the first and the second attempt of every action, and whether `_should_align_mount_uids_via_docker`.
structure Outside where
  operations : Nat
  fresh      : Subdir → Folder
  outcome    : Phase → Subdir → Bool → Outcome
  aligns     : Bool

end Operations

section Calls

variable (o : Outside)

-- `_validate_slot_component_chain`
def validate (n : Subdir) : Host PUnit := do
  let m ← .read
  match m.active with
  | .absent       => pure ⟨⟩
  | .folder slots =>
    match slots n with
    | none | some (.folder _) => pure ⟨⟩
    | _                       => .stop
  | _             => .stop

def validateLayout : Host PUnit := do
  let m ← .read
  match m.active with
  | .absent | .folder _ => Program.inTurn validate slotSubdirs
  | _                   => .stop

-- `_ensure_slot_tree_component` for the root of the slot and for one of its directories
def ensureActive : Host Bool := do
  let m ← .read
  match m.active with
  | .absent   => do
    act .mkdirActive
    return true
  | .folder _ => return false
  | _         => .stop

def ensureSlot (n : Subdir) : Host PUnit := do
  let m ← .read
  match m.active with
  | .folder slots =>
    match slots n with
    | none             => act (.mkdirSlot n (o.fresh n))
    | some (.folder _) => pure ⟨⟩
    | _                => .stop
  | _             => .stop

-- `_initialize_rw_mount_trust`, with `_collect_rw_mount_roots`
def initializeRwMountTrust (newlyCreated : Bool) : Host PUnit := do
  let m ← .read
  let state ← .ofOption (classify m)
  if state = .absent ∧ newlyCreated then do
    let roots ← .ofOption (collectRoots m)
    act .writeTmp
    act (.commitBaseline roots)
    act .writeMarkerTmp
    act .commitMarker
  else
    pure ⟨⟩
where
  root (m : Module) (n : Subdir) : Option Folder :=
    match m.slot n with
    | some (.folder folder) => some folder
    | _                     => none
  collectRoots (m : Module) : Option (Subdir → Folder) :=
    if rwMountRoots.all fun n => (root m n).isSome then some fun n => (root m n).getD ⟨0, 0, 0⟩ else none

def ensureSlotRoots : Host PUnit := do
  let newlyCreated ← ensureActive
  Program.inTurn (ensureSlot o) slotSubdirs
  initializeRwMountTrust newlyCreated

-- `_restore_rw_mount_root_access`
def restoreRwMountRootAccess (n : Subdir) : Host PUnit :=
  if n ∉ rwMountRoots then pure ⟨⟩
  else do
    let m ← .read
    let initialized ← .ofOption (isTrustInitialized m)
    if ¬initialized then .stop
    else
      match m.slot n with
      | some (.folder folder) => do
        let payload ← .ofOption (loadReadyRwMountBaseline m)
        let entry ← .ofOption (payload.bind fun payload => rootEntry (Json.Dict.get payload "roots") n)
        if (folder.dev, folder.ino) ≠ (entry.dev, entry.ino) then .stop
        else if folder.mode = entry.mode then pure ⟨⟩
        else act (.chmod n entry.mode)
      | _                     => pure ⟨⟩

def makeMissing (n : Subdir) : Host PUnit := do
  let m ← .read
  if (m.slot n).isNone then act (.mkdirSlot n (o.fresh n)) else pure ⟨⟩

-- An action on a slot directory, which makes the directory where it is missing. The answer is whether it is done.
def attempt (phase : Phase) (n : Subdir) (again : Bool) : Host Bool := do
  act (.access n)
  makeMissing o n
  match o.outcome phase n again with
  | .done       => return true
  | .permission => return false
  | .raised     => .stop

def runMountRootAccess (phase : Phase) (n : Subdir) : Host PUnit := do
  validate n
  restoreRwMountRootAccess n
  if ← attempt o phase n false then pure ⟨⟩
  else do
    restoreRwMountRootAccess n
    if ← attempt o phase n true then pure ⟨⟩ else .stop

-- `_clear_directory_children`
def clearDirectoryChildren (n : Subdir) : Host PUnit := do
  validate n
  let m ← .read
  if (m.slot n).isNone then act (.mkdirSlot n (o.fresh n)) else runMountRootAccess o .clear n

def clearSlotContents : Host PUnit := do
  validateLayout
  Program.inTurn (clearDirectoryChildren o) slotSubdirs

-- `_docker_chown_rw_mount_roots`
def dockerChown : Host PUnit :=
  if o.aligns then
    Program.inTurn chown rwMountRoots
  else
    pure ⟨⟩
where
  chown (n : Subdir) : Host PUnit := do
    let m ← .read
    match m.slot n with
    | some (.folder _) | some (.link true) => act (.chown n)
    | _                                    => pure ⟨⟩

def populate (n : Subdir) : Host PUnit :=
  if n ∈ rwMountRoots then runMountRootAccess o .populate n
  else do
    validate n
    if ← attempt o .populate n false then pure ⟨⟩ else .stop

def collectOne (n : Subdir) : Host PUnit := do
  let m ← .read
  if (m.slot n).isNone then pure ⟨⟩ else runMountRootAccess o .collect n

inductive Call
  | ensureSlotRoots
  | prepareActiveSlot
  | collectActiveSlot
  | clearActiveSlot
deriving DecidableEq, Repr

def Call.program : Call → Host PUnit
  | ensureSlotRoots   => Trust.ensureSlotRoots o
  | clearActiveSlot   => do
    Trust.ensureSlotRoots o
    dockerChown o
    clearSlotContents o
  | prepareActiveSlot => do
    Trust.ensureSlotRoots o
    dockerChown o
    clearSlotContents o
    Program.inTurn (populate o) slotSubdirs
    runMountRootAccess o .lease .diagnostics
    dockerChown o
  | collectActiveSlot => do
    dockerChown o
    validateLayout
    let m ← .read
    match m.active with
    | .folder _ => Program.inTurn (collectOne o) collectSubdirs
    | _         => pure ⟨⟩

def Call.journal (call : Call) (m : Module) : Journal Module Op :=
  (call.program o { store := m, left := o.operations, log := [] }).fst

end Calls

section System

-- A call of the host, or whatever else changes the module between two calls
inductive Action
  | call (call : Call) (o : Outside)
  | change (m : Module)

-- The logs of the calls so far are kept for the statements only.
structure Slot where
  module : Module
  past   : List (List (Module × Op))

def Slot.act (s : Slot) : Action → Slot
  | .call call o => { module := (call.journal o s.module).store, past := s.past ++ [(call.journal o s.module).log] }
  | .change m    => { s with module := m }

def slotSystem : TransitionSystem Slot Action where
  init s   := s.past = []
  step s a := some (s.act a)

end System

end Container.Trust
