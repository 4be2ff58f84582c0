import Mathlib.Data.List.Sort
import BridleModel.CodeMap.Feed
import BridleModel.Library.Assoc
import BridleModel.Library.EventLoop

open CodeMap Plan

-- The client keeps a copy of the code entities, and brings it up to date from the change events of the store.
namespace MapSync

variable {E A : Type} [CodeEntity E]

section Cache

structure MapLayerCache (E A : Type) where
  entities    : List E
  annotations : List A

structure ApplyChangesResult (E A : Type) where
  cache                 : MapLayerCache E A
  incremental           : Bool
  needsEntityPage       : Bool
  invalidateAnnotations : Bool
  invalidateRelations   : Bool
  invalidateBlindSpots  : Bool
  invalidateBoundaries  : Bool
  refreshPaths          : List String

def removeEntitiesForPath (entities : List E) (path : String) : List E :=
  entities.filter fun entity =>
    CodeEntity.path entity ≠ path ∧ ¬(path ++ "::").toList.isPrefixOf (CodeEntity.path entity).toList

def mergeEntitiesById (localeCompare : String → String → Int) (existing incoming : List E) : List E :=
  let merged := incoming.foldl (fun merged entity => Assoc.set merged (CodeEntity.id entity) entity)
    (Assoc.dict (existing.map fun entity => (CodeEntity.id entity, entity)))
  (merged.map (·.snd)).insertionSort fun left right =>
    localeCompare (CodeEntity.path left) (CodeEntity.path right) ≤ 0

end Cache

section Apply

variable (jsString : Json → String)

-- `String(event.payload.path ?? '')`; `jsString` is for a value that is no text.
def pathOf (event : ChangeRow) : String :=
  match event.payload.get "path" with
  | none | some .null => ""
  | some (.str s)     => s
  | some value        => jsString value

def unchanged (cache : MapLayerCache E A) : ApplyChangesResult E A where
  cache                 := cache
  incremental           := true
  needsEntityPage       := false
  invalidateAnnotations := false
  invalidateRelations   := false
  invalidateBlindSpots  := false
  invalidateBoundaries  := false
  refreshPaths          := []

-- A round of `applyChangeEvents`
def applyChangeEvent (result : ApplyChangesResult E A) (event : ChangeRow) : ApplyChangesResult E A :=
  if isRefresh event then
    let path := pathOf jsString event
    if path = "" then
      { result with incremental := false }
    else
      { result with
        cache                 := { result.cache with entities := removeEntitiesForPath result.cache.entities path }
        needsEntityPage       := true
        invalidateRelations   := true
        invalidateBlindSpots  := true
        invalidateBoundaries  := true
        invalidateAnnotations := true
        refreshPaths          := result.refreshPaths ++ [path]
      }
  else if event.entityType = "semantic_annotation" then
    { result with invalidateAnnotations := true }
  else if event.entityType = "map_objection" ∨ event.entityType = "project_map" then
    { result with incremental := false }
  else
    result

def applyChangeEvents (cache : MapLayerCache E A) (events : List ChangeRow) : ApplyChangesResult E A :=
  events.foldl (applyChangeEvent jsString) (unchanged cache)

def mergeApplyFlags (left right : ApplyChangesResult E A) : ApplyChangesResult E A where
  cache                 := right.cache
  incremental           := left.incremental && right.incremental
  needsEntityPage       := left.needsEntityPage || right.needsEntityPage
  invalidateAnnotations := left.invalidateAnnotations || right.invalidateAnnotations
  invalidateRelations   := left.invalidateRelations || right.invalidateRelations
  invalidateBlindSpots  := left.invalidateBlindSpots || right.invalidateBlindSpots
  invalidateBoundaries  := left.invalidateBoundaries || right.invalidateBoundaries
  refreshPaths          := (left.refreshPaths ++ right.refreshPaths).eraseDups

end Apply

section Requests

structure World (E : Type) [CodeEntity E] where
  feed    : Feed E
  aborted : Bool

inductive SyncError
  | abort
  | failed

-- A request fails, or the store answers it.
abbrev Co (E : Type) [CodeEntity E] :=
  Coroutine (World E) (Option SyncError) SyncError

def throwIfAborted : Co E Unit := do
  let aborted ← Coroutine.read World.aborted
  Coroutine.require (!aborted) .abort

def request {β : Type} (answer : Feed E → Except SyncError β) : Co E β :=
  Coroutine.wait fun fault w => some (w, fault.elim (answer w.feed) .error)

def fetchChanges (afterSeq : Nat) (limit : Int) : Co E (PlanMapChanges afterSeq) :=
  request fun feed => .ok (feed.changesAfter afterSeq limit)

def fetchPathSlice (path : String) : Co E (List E) :=
  request fun feed => (feed.pathSlice path).mapError fun _ => .failed

end Requests

section Sync

variable (jsString : Json → String) (localeCompare : String → String → Int)

structure SyncMapWatermarkResult (E A : Type) where
  cache                 : MapLayerCache E A
  watermark             : Nat
  incremental           : Bool
  invalidateAnnotations : Bool
  invalidateRelations   : Bool
  invalidateBlindSpots  : Bool
  invalidateBoundaries  : Bool
  fallbackReason        : Option String

def SyncMapWatermarkResult.of (cache : MapLayerCache E A) (watermark : Nat) (aggregate : ApplyChangesResult E A)
    (fallbackReason : Option String) : SyncMapWatermarkResult E A where
  cache                 := cache
  watermark             := watermark
  incremental           := fallbackReason.isNone
  invalidateAnnotations := aggregate.invalidateAnnotations
  invalidateRelations   := aggregate.invalidateRelations
  invalidateBlindSpots  := aggregate.invalidateBlindSpots
  invalidateBoundaries  := aggregate.invalidateBoundaries
  fallbackReason        := fallbackReason

def fetchSlices : List String → List E → Co E (List E)
  | [], entities            => pure entities
  | path :: paths, entities => do
    throwIfAborted
    let slice ← fetchPathSlice path
    throwIfAborted
    fetchSlices paths (mergeEntitiesById localeCompare entities slice)

-- After the pages: the entities of the refreshed paths
def refetch (targetSeq watermark : Nat) (cache : MapLayerCache E A) (aggregate : ApplyChangesResult E A) :
    Co E (SyncMapWatermarkResult E A) := do
  let entities ← (if aggregate.needsEntityPage then
    fetchSlices localeCompare aggregate.refreshPaths cache.entities else pure cache.entities)
  return .of { cache with entities } (min watermark targetSeq) aggregate none

-- The loop of `syncMapWatermark`, with what follows it. A page with events moves the watermark on.
def syncPages (targetSeq pageSize watermark : Nat) (cache : MapLayerCache E A) (aggregate : ApplyChangesResult E A) :
    Co E (SyncMapWatermarkResult E A) :=
  if watermark < targetSeq then do
    throwIfAborted
    let changes ← fetchChanges watermark pageSize
    throwIfAborted
    if hn : changes.items = [] then
      refetch localeCompare targetSeq targetSeq cache aggregate
    else
      let applied := applyChangeEvents jsString cache (changes.items.map (·.event))
      let aggregate := mergeApplyFlags aggregate applied
      if ¬applied.incremental then
        return .of applied.cache changes.lastSeq aggregate (some "unsupported_change_event")
      else if changes.items.length < pageSize ∧ targetSeq ≤ changes.lastSeq then
        refetch localeCompare targetSeq changes.lastSeq applied.cache aggregate
      else if changes.items.length < pageSize ∧ changes.lastSeq < targetSeq then
        return .of applied.cache changes.lastSeq aggregate (some "change_seq_gap")
      else
        have := changes.advances hn
        syncPages targetSeq pageSize changes.lastSeq applied.cache aggregate
  else
    refetch localeCompare targetSeq watermark cache aggregate
termination_by targetSeq - watermark

def syncMapWatermark (fromSeq targetSeq : Nat) (cache : MapLayerCache E A) (pageSize : Nat) :
    Co E (SyncMapWatermarkResult E A) :=
  syncPages jsString localeCompare targetSeq pageSize fromSeq cache (unchanged cache)

end Sync

section Client

structure Client (E A : Type) where
  cache   : MapLayerCache E A
  lastSeq : Nat

-- `applyPostSyncUpdates`. An attempt that falls back, or is aborted, leaves the client where it was.
def Client.attempted (client : Client E A) : Except SyncError (SyncMapWatermarkResult E A) → Client E A
  | .error _   => client
  | .ok result =>
    if result.incremental then
      { cache := { client.cache with entities := result.cache.entities }, lastSeq := result.watermark }
    else
      client

end Client
end MapSync
