import BridleModel.ProjectMap.Theorems.Effect

open Except

namespace ProjectMap

variable {fileId : String → String} {c₀ c c' : Processes.Configuration Db Position} {labels : List Label}
  {l : Label} {db db' : Db}

theorem lastRescan?_concat : lastRescan? (labels ++ [l]) = (rescan? l).or (lastRescan? labels) := by
  rw [lastRescan?, List.reverse_concat, List.findSome?_cons]
  cases rescan? l <;> rfl

-- What a map must have been through before it may be edited.
structure Settled (labels : List Label) (db : Db) : Prop where
  rescanned  : lastRescan? labels = some true
  scanned    : db.semanticStatus = .completed
  arbitrated : db.pendingObjectionCount = 0

-- A semantic scan is only under way on a structure that has been scanned.
structure Gated (labels : List Label) (db : Db) : Prop where
  ready    : db.scanStatus = .ready → Settled labels db
  scanning : db.scanStatus = .structureReady ∨ db.scanStatus = .semanticScanning →
    lastRescan? labels = some true

-- The last objection is resolved only on a map whose structure stands, and no batch of a semantic scan
-- routes a blind spot while the map is ready.
def Orderly (labels : List Label) (db : Db) : Label → Prop
  | .environment (.resolve objectionId decision _) =>
    ∀ row, resolvable objectionId decision db = .ok row → (∀ o, db.Pending o → o.id = objectionId) →
      lastRescan? labels = some true
  | .process _ (.batch _) =>
    db.scanStatus = .ready → ∀ spot ∈ db.nextSpots, db.spotSource spot = none
  | _ => True

namespace Gated

theorem of_gate (h : Gated labels db) (scan : db'.scanStatus = db.scanStatus)
    (semantic : db.semanticStatus = .completed → db'.semanticStatus = .completed)
    (pending : ∀ o, db'.Pending o → db.Pending o) : Gated labels db' where
  ready hs    :=
    have ⟨h₁, h₂, h₃⟩ := h.ready (scan ▸ hs)
    ⟨h₁, semantic h₂, Db.pendingObjectionCount_eq_zero_iff.mpr fun o ho =>
      Db.pendingObjectionCount_eq_zero_iff.mp h₃ o (pending o ho)⟩
  scanning hs := h.scanning (scan ▸ hs)

theorem scans (h : Gated labels db) (hs : Scans db db') : Gated labels db' := by
  cases hs with
  | keep scan objections semantic       =>
    exact h.of_gate scan semantic fun o => (Db.pending_congr objections).mp
  | scanning before after               => exact ⟨by simp [after], fun _ => h.scanning before⟩
  | arbitration after pending           => exact ⟨by simp [after], by simp [after]⟩
  | ready before after semantic settled =>
    have hl := h.scanning (.inr before)
    exact ⟨fun _ => ⟨hl, semantic, Db.pendingObjectionCount_eq_zero_iff.mpr settled⟩, fun _ => hl⟩

theorem resolve {objectionId decision actor : String}
    (orderly : Orderly labels db (.environment (.resolve objectionId decision actor)))
    (hr : resolveObjection objectionId decision actor db = .ok db') : Gated labels db' := by
  have ⟨row, hrow, hp, hsem, hwait, hdone⟩ := resolveObjection_ok hr
  by_cases hw : ∃ o, db'.Pending o
  case pos => exact ⟨by simp [hwait hw], by simp [hwait hw]⟩
  case neg =>
    have hn := not_exists.mp hw
    have hl := orderly row hrow fun o ho => by_contra fun hne => hn o ((hp o).mpr ⟨ho, hne⟩)
    refine ⟨fun hs => ⟨hl, ?_, Db.pendingObjectionCount_eq_zero_iff.mpr hn⟩, fun _ => hl⟩
    rw [hdone hn] at hs
    split at hs
    case isTrue hc => exact hsem.trans hc
    case isFalse   => cases hs

theorem batch {draw : String → String × String} {p remaining : Nat} (h : Gated labels db)
    (orderly : Orderly labels db (.process p (.batch draw)))
    (hb : runSemanticBatch draw db = .ok (db', remaining)) : Gated labels db' := by
  have ⟨hr, hn⟩ := runSemanticBatch_ok hb
  refine ⟨fun hs => ?_, fun hs => h.scanning (hr.scan ▸ hs)⟩
  have hready := hr.scan ▸ hs
  have ⟨h₁, h₂, h₃⟩ := h.ready hready
  refine ⟨h₁, hr.semantic.trans h₂, ?_⟩
  rwa [Db.pendingObjectionCount, hn (orderly hready)]

theorem step (h : Gated labels c.store) (orderly : Orderly labels c.store l)
    (hs : (stores fileId).system.step c l = some c') : Gated (labels ++ [l]) c'.store := by
  have keep : rescan? l = none → Gated labels c'.store → Gated (labels ++ [l]) c'.store := by
    intro hn hg
    have he : lastRescan? (labels ++ [l]) = lastRescan? labels := by rw [lastRescan?_concat, hn, Option.none_or]
    exact ⟨fun hs => ⟨he.trans (hg.ready hs).1, (hg.ready hs).2, (hg.ready hs).3⟩, fun hs => he.trans (hg.scanning hs)⟩
  cases step_effect hs with
  | rescan after                     =>
    exact ⟨by simp [after], fun _ => by simp [lastRescan?_concat, rescan?]⟩
  | rescanFailed after               => exact ⟨by simp [after], by simp [after]⟩
  | scan other scans                 => exact keep other (h.scans scans)
  | resolve resolved                 => exact keep rfl (.resolve orderly resolved)
  | batch batch                      => exact keep rfl (h.batch orderly batch)
  | refresh refreshes refreshed gate =>
    have ⟨_, _, h₁, h₂, h₃⟩ := refreshCodePaths_ok refreshed
    have ⟨hg₁, hg₂, hg₃⟩ := Db.gate_eq gate
    refine keep ?_ (h.of_gate (hg₁.trans h₁) (hg₂.trans h₂).trans fun o ho => ?_)
    case refine_1 => exact rescan?_of_refreshes refreshes
    case refine_2 => exact ((h₃ o).mp ((Db.pending_congr hg₃).mp ho)).1

end Gated

-- Each step of the run meets `Orderly` where it is taken.
theorem gated (hi : (stores fileId).system.init c₀) (hr : (stores fileId).system.run c₀ labels = some c)
    (orderly : ∀ before l after c', labels = before ++ l :: after →
      (stores fileId).system.run c₀ before = some c' → Orderly before c'.store l) :
    Gated labels c.store := by
  refine TransitionSystem.run_induction (M := (stores fileId).system)
    (I := fun as s => (∀ before l after c', as = before ++ l :: after →
      (stores fileId).system.run c₀ before = some c' → Orderly before c'.store l) → Gated as s.store)
    (fun _ => ?_) (fun {as a s₁ s₂} hr ih hs orderly => ?_) hr orderly
  case refine_1 =>
    have ⟨⟨_, _, he⟩, _⟩ := hi
    exact ⟨by simp [he, Db.empty], by simp [he, Db.empty]⟩
  case refine_2 =>
    refine (ih fun before l after c' he => ?_).step (orderly as a [] s₁ rfl hr) hs
    exact orderly before l (after ++ [a]) c' (by simp [he])

theorem ready_settled (hi : (stores fileId).system.init c₀) (hr : (stores fileId).system.run c₀ labels = some c)
    (orderly : ∀ before l after c', labels = before ++ l :: after →
      (stores fileId).system.run c₀ before = some c' → Orderly before c'.store l)
    (ready : c.store.scanStatus = .ready) : Settled labels c.store :=
  (gated hi hr orderly).ready ready

namespace Sample

def start : Processes.Configuration Db Position where
  store     := .empty "p" fun _ => ""
  process _ := .idle

def nothing : Index where
  entities     := []
  spots        := []
  rebuilt      := []
  rebuiltSpots := []

-- A store scans the map whose structure has been scanned. An executor that does nothing leaves no spots.
def scanned : List Label :=
  [.environment (.rescan nothing), .process 0 (.call true), .process 0 .next, .process 0 .next,
    .process 0 .next, .process 0 .next, .process 0 .next, .process 0 .next]

-- An objection is raised and resolved between the two scans.
def arbitrated : List Label :=
  [.environment (.rescan nothing), .environment (.createObjection "o" "boundary" none),
    .environment (.resolve "o" "rejected" "human"), .process 0 (.call true), .process 0 .next,
    .process 0 .next, .process 0 .next, .process 0 .next, .process 0 .next, .process 0 .next]

-- The rescan after a finished scan fails, and an objection is raised and resolved afterwards.
def reopened : List Label :=
  scanned ++ [.environment (.rescanFailed "OSError"), .environment (.createObjection "o" "boundary" none),
    .environment (.resolve "o" "rejected" "human")]

def after (labels : List Label) : Option (ScanStatus × Option Bool) :=
  ((stores id).system.run start labels).map fun c => (c.store.scanStatus, lastRescan? labels)

theorem after_arbitrated : after arbitrated = some (.ready, some true) := by
  decide +kernel

theorem after_reopened : after reopened = some (.ready, some false) := by
  decide +kernel

theorem arbitrated_orderly (before : List Label) (l : Label) (rest : List Label)
    (c' : Processes.Configuration Db Position) (h : arbitrated = before ++ l :: rest) :
    Orderly before c'.store l := by
  match before, h with
  | [], h | [_], h                               => cases h; trivial
  | [_, _], h                                    => cases h; exact fun _ _ _ => rfl
  | [_, _, _], h | [_, _, _, _], h               => cases h; trivial
  | [_, _, _, _, _], h | [_, _, _, _, _, _], h   => cases h; trivial
  | [_, _, _, _, _, _, _], h                     => cases h; trivial
  | [_, _, _, _, _, _, _, _], h                  => cases h; trivial
  | [_, _, _, _, _, _, _, _, _], h               => cases h; trivial
  | _ :: _ :: _ :: _ :: _ :: _ :: _ :: _ :: _ :: _ :: before, h => simp [arbitrated] at h

end Sample

theorem ready_settled_arbitrated : ∃ c, (stores id).system.run Sample.start Sample.arbitrated = some c ∧
    c.store.scanStatus = .ready ∧ Settled Sample.arbitrated c.store := by
  have ⟨c, hr, he⟩ := Option.map_eq_some_iff.mp Sample.after_arbitrated
  have ready : c.store.scanStatus = .ready := congrArg Prod.fst he
  refine ⟨c, hr, ready, ready_settled ⟨⟨"p", fun _ => "", rfl⟩, fun _ => rfl⟩ hr ?_ ready⟩
  exact fun before l rest c' h _ => Sample.arbitrated_orderly before l rest c' h

-- The map is ready although the rescan that ended last has failed.
theorem ready_settled_not : ¬∀ (fileId : String → String) (c₀ c : Processes.Configuration Db Position)
    (labels : List Label), (stores fileId).system.init c₀ → (stores fileId).system.run c₀ labels = some c →
    c.store.scanStatus = .ready → Settled labels c.store := by
  intro h
  have ⟨c, hr, he⟩ := Option.map_eq_some_iff.mp Sample.after_reopened
  have hs := h id Sample.start c _ ⟨⟨"p", fun _ => "", rfl⟩, fun _ => rfl⟩ hr (congrArg Prod.fst he)
  exact nomatch hs.rescanned.symm.trans (congrArg Prod.snd he)

end ProjectMap
