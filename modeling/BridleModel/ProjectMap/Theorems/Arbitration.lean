import BridleModel.ProjectMap.Theorems.Effect

open Except

namespace ProjectMap

variable {fileId : String → String} {c₀ c c' : Processes.Configuration Db Position} {labels : List Label}
  {l : Label} {db db' : Db}

-- Somebody can leave the arbitration.
def Arbitrable (db : Db) : Prop :=
  db.scanStatus = .needsArbitration → ∃ o, o ∈ db.objections ∧ o.status = .pending

-- A refresh during the arbitration leaves an objection that is about no annotation whose source is gone or
-- has changed.
def KeepsQueue (db : Db) : Label → Prop
  | .environment call => ∀ paths index indexed, call.refreshes db = some (paths, index) →
    db.reindex paths index = .ok indexed → db.scanStatus = .needsArbitration →
      ∃ o, o ∈ db.objections ∧ o.status = .pending ∧ ∀ snap ∈ db.annotationSnapshots paths,
        o.annotationId = some snap.id → indexed.sourceChanged snap = false
  | .process _ _ => True

namespace Arbitrable

theorem scans (h : Arbitrable db) (hs : Scans db db') : Arbitrable db' := by
  intro ha
  cases hs with
  | keep scan objections semantic       =>
    have ⟨o, ho⟩ := h (scan ▸ ha)
    exact ⟨o, (Db.pending_congr objections).mpr ho⟩
  | scanning before after               => simp [after] at ha
  | arbitration after pending           => exact ⟨_, pending⟩
  | ready before after semantic settled => simp [after] at ha

theorem resolve {objectionId decision actor : String}
    (hr : resolveObjection objectionId decision actor db = .ok db') : Arbitrable db' := by
  have ⟨_, _, _, _, _, hdone⟩ := resolveObjection_ok hr
  intro ha
  by_contra hn
  have hs := hdone fun o ho => hn ⟨o, ho⟩
  rw [ha] at hs
  split at hs <;> cases hs

-- The queue that a refresh leaves is the one that `KeepsQueue` speaks of.
theorem refresh {call : Call} {paths : List String} {index : Index} {db₁ : Db}
    (keeps : KeepsQueue db (.environment call)) (refreshes : call.refreshes db = some (paths, index))
    (refreshed : refreshCodePaths fileId paths index db = .ok db₁) (gate : db'.gate = db₁.gate) :
    Arbitrable db' := by
  have ⟨indexed, hi, h₁, _, h₃⟩ := refreshCodePaths_ok refreshed
  have ⟨hg₁, _, hg₃⟩ := Db.gate_eq gate
  intro ha
  have ⟨o, hm, ho, hk⟩ := keeps paths index indexed refreshes hi (h₁.symm.trans (hg₁.symm.trans ha))
  exact ⟨o, (Db.pending_congr hg₃).mpr ((h₃ o).mpr ⟨⟨hm, ho⟩, hk⟩)⟩

theorem step (h : Arbitrable c.store) (keeps : KeepsQueue c.store l)
    (hs : (stores fileId).system.step c l = some c') : Arbitrable c'.store := by
  cases step_effect hs with
  | rescan after                     => exact fun ha => by simp [after] at ha
  | rescanFailed after               => exact fun ha => by simp [after] at ha
  | scan _ scans                     => exact h.scans scans
  | resolve resolved                 => exact resolve resolved
  | refresh refreshes refreshed gate => exact refresh keeps refreshes refreshed gate
  | batch batch                      =>
    have ⟨hr, _⟩ := runSemanticBatch_ok batch
    intro ha
    have ⟨o, ho⟩ := h (hr.scan ▸ ha)
    exact ⟨o, hr.pending ho⟩

end Arbitrable

theorem arbitrable (hi : (stores fileId).system.init c₀)
    (keeps : ∀ s l s', (stores fileId).system.Occurs c₀ labels s l s' → KeepsQueue s.store l)
    (hr : (stores fileId).system.run c₀ labels = some c) : Arbitrable c.store := by
  refine TransitionSystem.run_induction (M := (stores fileId).system)
    (I := fun as s => (∀ s₁ l s₂, (stores fileId).system.Occurs c₀ as s₁ l s₂ → KeepsQueue s₁.store l) →
      Arbitrable s.store)
    (fun _ => ?_) (fun {as a s₁ s₂} hr ih hs keeps => ?_) hr keeps
  case refine_1 =>
    have ⟨⟨_, _, he⟩, _⟩ := hi
    simp [Arbitrable, he, Db.empty]
  case refine_2 =>
    exact (ih fun s l s' ho => keeps s l s' ho.append).step (keeps _ _ _ (.last hr hs)) hs

namespace Sample

def file : Index where
  entities     := [{ id := "f", path := "a.py" }]
  spots        := []
  rebuilt      := []
  rebuiltSpots := []

def proposal : Proposal where
  sourceId   := "f"
  fileHash   := "h"
  confidence := 2 / 5
  risk       := "medium"
  model      := "m"

def workspace : Processes.Configuration Db Position where
  store     := .empty "p" fun path => if path = "a.py" then "h" else ""
  process _ := .idle

-- The file changes while an annotation of it waits for its arbitration.
def overtaken : List Label :=
  [.environment (.rescan file), .environment (.propose "a" "o" none proposal),
    .environment (.write "a.py" "h'"), .environment (.refresh ["a.py"] file)]

-- The objection is about no annotation.
def boundary : List Label :=
  [.environment (.rescan file), .environment (.createObjection "o" "boundary" none),
    .environment (.write "a.py" "h'")]

def refreshed : List Label :=
  boundary ++ [.environment (.refresh ["a.py"] file)]

def queue (labels : List Label) : Option (ScanStatus × Nat) :=
  ((stores id).system.run workspace labels).map fun c => (c.store.scanStatus, c.store.pendingObjectionCount)

theorem queue_overtaken : queue overtaken = some (.needsArbitration, 0) := by
  decide +kernel

theorem queue_refreshed : queue refreshed = some (.needsArbitration, 1) := by
  decide +kernel

theorem objections_boundary : ((stores id).system.run workspace boundary).map (·.store.objections.rows) =
    some [⟨"o", none, .pending⟩] := by
  decide +kernel

theorem refreshed_keeps {s s' : Processes.Configuration Db Position} {l : Label}
    (h : (stores id).system.Occurs workspace refreshed s l s') : KeepsQueue s.store l := by
  cases h with
  | @intro before rest split run _ =>
    match before, split with
    | [], split | [_], split | [_, _], split => cases split; exact fun _ _ _ h => nomatch h
    | [_, _, _], split                       =>
      cases split
      have ⟨_, hr, he⟩ := Option.map_eq_some_iff.mp objections_boundary
      cases (run.symm.trans hr)
      have hm : ⟨"o", none, .pending⟩ ∈ s.store.objections := Table.mem_def.mpr (he ▸ List.mem_singleton_self _)
      exact fun _ _ _ _ _ _ => ⟨_, hm, rfl, fun _ _ h => nomatch h⟩
    | _ :: _ :: _ :: _ :: before, split      => simp [refreshed, boundary] at split

end Sample

theorem arbitrable_refreshed : ∃ c, (stores id).system.run Sample.workspace Sample.refreshed = some c ∧
    c.store.scanStatus = .needsArbitration ∧ Arbitrable c.store := by
  have ⟨c, hr, he⟩ := Option.map_eq_some_iff.mp Sample.queue_refreshed
  exact ⟨c, hr, congrArg Prod.fst he,
    arbitrable ⟨⟨"p", _, rfl⟩, fun _ => rfl⟩ (fun _ _ _ => Sample.refreshed_keeps) hr⟩

-- Nobody can leave the arbitration: the refresh has resolved the only objection.
theorem arbitrable_not : ¬∀ (fileId : String → String) (c₀ c : Processes.Configuration Db Position)
    (labels : List Label), (stores fileId).system.init c₀ → (stores fileId).system.run c₀ labels = some c →
    Arbitrable c.store := by
  intro h
  have ⟨c, hr, he⟩ := Option.map_eq_some_iff.mp Sample.queue_overtaken
  have ⟨o, ho⟩ := h id _ c _ ⟨⟨"p", _, rfl⟩, fun _ => rfl⟩ hr (congrArg Prod.fst he)
  exact Db.pendingObjectionCount_eq_zero_iff.mp (congrArg Prod.snd he) o ho

end ProjectMap
