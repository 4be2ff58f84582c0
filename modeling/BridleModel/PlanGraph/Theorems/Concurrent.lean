import BridleModel.PlanGraph.Theorems.Running

open Except Processes

namespace PlanGraph

section Commit

variable {jsonSet : Json → Json.Dict → Option Json} {db db' : Db} {p : PlanPatch} {first : Option NodeRow}
  {n : NodeRow} {position position' : Position} {input : Option PlanPatch}

structure Untouched (db db' : Db) (n : NodeRow) : Prop where
  row       : db'.node? n.id = some n
  dependsOn : ∀ b, DependsOn db' n.id b ↔ DependsOn db n.id b
  archived  : ∀ b m, DependsOn db n.id b ∨ n.parentId = some b → db.node? b = some m →
    ∃ m', db'.node? b = some m' ∧ m'.archived = m.archived

theorem Untouched.refl (hn : db.node? n.id = some n) : Untouched db db n where
  row              := hn
  dependsOn _      := .rfl
  archived _ m _ h := ⟨m, h, rfl⟩

-- The first row may be stale: what counts is that no affected node runs when the transaction opens.
theorem untouched_applies (hs : Sound db) (hm : assertPatchMutable db p = .ok ())
    (ha : Applies jsonSet p.ops db db') (hn : db.node? n.id = some n) (hr : n.status = .running) :
    Untouched db db' n where
  row         := (running_unchanged (b := n.id) hs hm ha hn hr).left
  dependsOn b := (running_unchanged hs hm ha hn hr).right
  archived b m hb hm' := by
    have ⟨hmem, _⟩ := node?_eq_some_iff.mp hn
    have hu := assertPatchMutable_ok hm hmem (hs n.id n hn hr) hr
    have ⟨m', hm', hk⟩ := ha.node hm'
    refine ⟨m', hm', hk.archived fun ho => ?_⟩
    cases hb with
    | inl hb => exact hu.dependent b ho hb
    | inr hb => exact hu.child b ho hb

theorem commitPatch_ok (h : commitPatch jsonSet first p db = .ok db') : Applies jsonSet p.ops db db' := by
  have ⟨_, ha, h⟩ := bind_eq_ok_iff.mp h
  have ⟨_, _, h⟩ := bind_eq_ok_iff.mp h
  cases h
  exact .of_applyPatch ha

-- Only the write transaction changes the plan.
theorem advance_store (h : advance jsonSet db position input = some (db', position')) : db' = db ∨
    ∃ p first, position = .write p first ∧ input = none ∧ commitPatch jsonSet first p db = .ok db' := by
  unfold advance at h
  split at h
  case h_1 =>
    split at h
    case h_1 => cases h; exact .inl rfl
    case h_2 => cases h; exact .inl rfl
  case h_2 => cases h; exact .inl rfl
  case h_3 => cases h; exact .inl rfl
  case h_4 =>
    split at h
    case h_1 => cases h; exact .inl rfl
    case h_2 => cases h; exact .inl rfl
  case h_5 => cases h; exact .inl rfl
  case h_6 p first =>
    cases hc : commitPatch jsonSet first p db with
    | error e =>
      rw [hc] at h
      cases h
      exact .inl rfl
    | ok db₁ =>
      rw [hc] at h
      cases h
      exact .inr ⟨p, first, rfl, rfl, hc⟩
  case h_7 => cases h

end Commit

section Run

variable {jsonSet : Json → Json.Dict → Option Json} {c₀ c c₁ c₂ : Configuration Db Position}
  {ls : List (Label String (Option PlanPatch))}

-- The patch is committed from this state, and its check would still pass in it.
def StillMutable (jsonSet : Json → Json.Dict → Option Json) (c : Configuration Db Position) (q : Nat) : Prop :=
  ∀ p first, c.process q = .write p first → (∃ db', commitPatch jsonSet first p c.store = .ok db') →
    assertPatchMutable c.store p = .ok ()

theorem process_store {q : Nat} {input : Option PlanPatch}
    (h : (connections jsonSet).system.step c₁ (.process q input) = some c₂) (hm : StillMutable jsonSet c₁ q) :
    c₂.store = c₁.store ∨
      ∃ p, Applies jsonSet p.ops c₁.store c₂.store ∧ assertPatchMutable c₁.store p = .ok () := by
  have ⟨⟨db, position⟩, ha, hc⟩ := Option.map_eq_some_iff.mp h
  subst hc
  cases advance_store ha with
  | inl h => exact .inl h
  | inr h =>
    have ⟨p, first, hp, _, hc⟩ := h
    exact .inr ⟨p, commitPatch_ok hc, hm p first hp ⟨_, hc⟩⟩

theorem sound_step {l : Label String (Option PlanPatch)} (hs : Sound c₁.store)
    (h : (connections jsonSet).system.step c₁ l = some c₂)
    (hm : ∀ q input, l = .process q input → StillMutable jsonSet c₁ q) : Sound c₂.store := by
  cases l with
  | environment nodeId =>
    have hc : { c₁ with store := (startNode nodeId c₁.store).snd } = c₂ := Option.some.inj h
    subst hc
    exact @sound_call jsonSet _ (.start nodeId) hs
  | process q input =>
    cases process_store h (hm q input rfl) with
    | inl h => exact h ▸ hs
    | inr h =>
      have ⟨_, ha, hm⟩ := h
      exact sound_applies hs hm ha

theorem sound_connections (hi : (connections jsonSet).system.init c₀)
    (hr : (connections jsonSet).system.run c₀ ls = some c)
    (hm : ∀ c₁ q input c₂, (connections jsonSet).system.Occurs c₀ ls c₁ (.process q input) c₂ →
      StillMutable jsonSet c₁ q) : Sound c.store := by
  revert hm
  refine TransitionSystem.run_induction (M := (connections jsonSet).system) (I := fun ls c =>
    (∀ c₁ q input c₂, (connections jsonSet).system.Occurs c₀ ls c₁ (.process q input) c₂ →
      StillMutable jsonSet c₁ q) → Sound c.store) ?nil ?concat hr
  case nil => exact fun _ => hi.left
  case concat =>
    intro as l s₁ s₂ hr hI hs hm
    refine sound_step (hI fun _ _ _ _ h => hm _ _ _ _ h.append) hs fun q input hl => ?_
    subst hl
    exact hm _ _ _ _ (.last hr hs)

theorem running_immutable (hi : (connections jsonSet).system.init c₀)
    (hr : (connections jsonSet).system.run c₀ ls = some c)
    (hm : ∀ c₁ q input c₂, (connections jsonSet).system.Occurs c₀ ls c₁ (.process q input) c₂ →
      StillMutable jsonSet c₁ q) :
    ∀ c₁ q input c₂, (connections jsonSet).system.Occurs c₀ ls c₁ (.process q input) c₂ →
      ∀ n ∈ c₁.store.nodes, n.status = .running → Untouched c₁.store c₂.store n := by
  intro c₁ q input c₂ ho n hn hrun
  have hs : Sound c₁.store := by
    have ⟨split, run, _⟩ := ho
    exact sound_connections hi run fun _ _ _ _ h => hm _ _ _ _ (split ▸ h.append)
  have hn := node?_eq_some_iff.mpr ⟨hn, rfl⟩
  cases process_store ho.step (hm c₁ q input c₂ ho) with
  | inl h =>
    rw [h]
    exact .refl hn
  | inr h =>
    have ⟨_, ha, hm⟩ := h
    exact untouched_applies hs hm ha hn hrun

end Run

namespace Sample

-- Connection 0 has checked its patch when the node is started.
def planned : Configuration Db Position where
  store     := [Call.scan (some "ready") none, .patch (adding [node "active" []])].foldl (Db.call keep) .empty
  process _ := .idle

def checked : List (Label String (Option PlanPatch)) := [
  .process 0 (some (retitling "active")), .process 0 none, .process 0 none, .environment "active",
  .process 0 none
]

theorem planned_init : (connections keep).system.init planned := by
  refine ⟨fun id n hn hr => ?_, fun _ => rfl⟩
  have hp : planned.store.nodes.rows.all (·.status = .pending) = true := by decide +kernel
  have hs := List.all_eq_true.mp hp n (node?_eq_some_iff.mp hn).left
  simp [hr] at hs

theorem checked_touches : ∃ c₁ c₂ n, (connections keep).system.run planned checked = some c₁ ∧
    (connections keep).system.step c₁ (.process 0 none) = some c₂ ∧
    n ∈ c₁.store.nodes ∧ n.status = .running ∧ ¬Untouched c₁.store c₂.store n := by
  let before := (connections keep).system.run planned checked
  let after := (connections keep).system.run planned (checked ++ [.process 0 none])
  let node? (c : Option (Configuration Db Position)) := c.bind (·.store.node? "active")
  have hb : (node? before).map (fun n => (n.status, n.title)) = some (.running, "active") := by decide +kernel
  have ha : (node? after).map (·.title) = some "new title" := by decide +kernel
  have ⟨n, hn, hs⟩ := Option.map_eq_some_iff.mp hb
  have ⟨n', hn', ht'⟩ := Option.map_eq_some_iff.mp ha
  have ⟨hr, ht⟩ := Prod.mk.inj hs
  have ⟨c₁, h₁, hl⟩ := Option.bind_eq_some_iff.mp hn
  have ⟨c₂, h₂, hl'⟩ := Option.bind_eq_some_iff.mp hn'
  have ⟨_, h₁', hstep⟩ := TransitionSystem.run_concat_eq_some_iff.mp h₂
  cases h₁.symm.trans h₁'
  have ⟨hm, hi⟩ := node?_eq_some_iff.mp hl
  refine ⟨c₁, c₂, n, h₁, hstep, hm, hr, fun hu => ?_⟩
  cases (hi ▸ hu.row).symm.trans hl'
  simp [ht] at ht'

end Sample

theorem running_immutable_not : ¬∀ jsonSet c₀ ls c, (connections jsonSet).system.init c₀ →
    (connections jsonSet).system.run c₀ ls = some c →
    ∀ c₁ q input c₂, (connections jsonSet).system.Occurs c₀ ls c₁ (.process q input) c₂ →
      ∀ n ∈ c₁.store.nodes, n.status = .running → Untouched c₁.store c₂.store n := by
  intro h
  have ⟨c₁, c₂, n, hr, hs, hn, hrun, hu⟩ := Sample.checked_touches
  exact hu <| h Sample.keep _ _ c₂ Sample.planned_init
    (TransitionSystem.run_concat_eq_some_iff.mpr ⟨c₁, hr, hs⟩) c₁ 0 none c₂ (.last hr hs) n hn hrun

namespace Sample

def mutableAlong (c : Configuration Db Position) : List (Label String (Option PlanPatch)) → Bool
  | []      => true
  | l :: ls =>
    let here := match l with
      | .environment _ => true
      | .process q _   =>
        match c.process q with
        | .write p _ => (assertPatchMutable c.store p).toBool
        | _          => true
    here && ((connections keep).system.step c l).all (mutableAlong · ls)

theorem mutableAlong_occurs {c c₁ c₂ : Configuration Db Position} {ls : List (Label String (Option PlanPatch))}
    {q : Nat} {input : Option PlanPatch} (h : mutableAlong c ls)
    (ho : (connections keep).system.Occurs c ls c₁ (.process q input) c₂) : StillMutable keep c₁ q := by
  induction ls generalizing c with
  | nil           => exact absurd ho TransitionSystem.Occurs.nil
  | cons l ls hi =>
    have ⟨hh, ht⟩ := Bool.and_eq_true_iff.mp h
    cases ho.cons with
    | inr h =>
      have ⟨s, hs, ho⟩ := h
      exact hi (by simpa [hs] using ht) ho
    | inl h =>
      have ⟨hc, hl⟩ := h
      subst hc hl
      intro p first hp _
      simp only [hp] at hh
      cases ha : assertPatchMutable c₁.store p with
      | error => simp [ha, Except.toBool] at hh
      | ok    => rfl

-- Connection 0 adds a node while another one runs.
def adds : List (Label String (Option PlanPatch)) := [
  .environment "active", .process 0 (some (adding [node "next" ["active"]])), .process 0 none, .process 0 none,
  .process 0 none
]

end Sample

theorem running_immutable_adds : ∃ c₁ c₂,
    (connections Sample.keep).system.step c₁ (.process 0 none) = some c₂ ∧ c₂.store.changes.length = 3 ∧
    ∀ n ∈ c₁.store.nodes, n.status = .running → Untouched c₁.store c₂.store n := by
  have hd : ((connections Sample.keep).system.run Sample.planned (Sample.adds ++ [.process 0 none])).map
      (·.store.changes.length) = some 3 := by decide +kernel
  have ⟨c₂, hr, hl⟩ := Option.map_eq_some_iff.mp hd
  have ⟨c₁, hr', hs⟩ := TransitionSystem.run_concat_eq_some_iff.mp hr
  have ha : Sample.mutableAlong Sample.planned (Sample.adds ++ [.process 0 none]) := by decide +kernel
  exact ⟨c₁, c₂, hs, hl, running_immutable Sample.planned_init hr
    (fun _ _ _ _ => Sample.mutableAlong_occurs ha) c₁ 0 none c₂ (.last hr' hs)⟩

end PlanGraph
