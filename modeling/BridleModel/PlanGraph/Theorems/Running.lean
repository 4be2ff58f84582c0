import BridleModel.PlanGraph.System
import BridleModel.PlanGraph.Theorems.Frame

open Except

namespace PlanGraph

variable {jsonSet : Json → Json.Dict → Option Json} {db db' : Db} {p : PlanPatch} {id a b : String} {n : NodeRow}

section Calls

theorem startNode_cases (nodeId : String) (db : Db) : (startNode nodeId db).snd = db ∨
    ∃ n, db.node? nodeId = some n ∧ runnable db n ∧ (startNode nodeId db).snd.edges = db.edges ∧
      ∀ id, (startNode nodeId db).snd.node? id =
        if id = nodeId then some { n with status := .running } else db.node? id := by
  unfold startNode
  simp only
  split
  case isTrue =>
    split
    case h_1 => exact .inl rfl
    case h_2 => exact .inl rfl
  case isFalse hc =>
    right
    obtain ⟨n, hm, hn⟩ : ∃ n ∈ db.nodes, n.id = nodeId ∧ runnable db n := by
      have hn := mt Table.rowcount_eq_zero_iff.mpr hc
      simpa using hn
    have hl : db.node? nodeId = some n := node?_eq_some_iff.mpr ⟨hm, hn.left⟩
    refine ⟨n, hl, hn.right, rfl, fun id => ?_⟩
    simp only [connect, Db.recordChange, Db.node?]
    rw [lookup_modify_id (f := fun row => { row with status := .running }) fun _ => rfl]
    by_cases hi : id = nodeId
    case pos =>
      subst hi
      rw [← Db.node?, hl]
      simp [hn]
    case neg =>
      cases hl : db.nodes.lookup id with
      | none     => simp [hi]
      | some row =>
        have hr : id = row.id := by simpa using Table.lookup_key hl
        simp [← hr, hi]

theorem finish_node? {nodeId : String} {completed : Bool} : (db.finish nodeId completed).node? id =
    (db.node? id).map fun n => if n.id = nodeId ∧ ¬n.archived ∧ n.status = .running then
      { n with status := if completed then .completed else .failed } else n := by
  simp only [Db.finish, Db.node?]
  rw [lookup_modify_id (f := fun row => { row with status := if completed then .completed else .failed })
    fun _ => rfl]
  simp

end Calls

section Patch

-- A node whose dependencies are to be complete, and what the plan promises about them.
def DependenciesCompleted (db : Db) : Prop :=
  ∀ a n, db.node? a = some n → n.status = .running →
    ∀ b, DependsOn db a b → ∃ m, db.node? b = some m ∧ m.status = .completed

def Endpoints (db : Db) : Prop :=
  ∀ a b, DependsOn db a b → ∃ m, db.node? b = some m

-- The patch sets a field of a node that a running node depends on.
def Reopens (p : PlanPatch) (db : Db) : Prop :=
  ∃ u ∈ p.updateNodes, u.hasAssignments ∧
    ∃ a n, db.node? a = some n ∧ n.status = .running ∧ DependsOn db a u.id

-- A running node passes through a patch as it is.
theorem running_unchanged (hs : Sound db) (hm : assertPatchMutable db p = .ok ())
    (ha : Applies jsonSet p.ops db db') (hn : db.node? a = some n) (hr : n.status = .running) :
    db'.node? a = some n ∧ (DependsOn db' a b ↔ DependsOn db a b) := by
  have ⟨hmem, hid⟩ := node?_eq_some_iff.mp hn
  have hu := assertPatchMutable_ok hm hmem (hs a n hn hr) hr
  subst hid
  have ⟨n', hn', hk⟩ := ha.node hn
  have ⟨hd, hd'⟩ := ha.dependsOn (b := b) hn hu.direct
  refine ⟨hk.row hu.direct ▸ hn', hd, fun h => hd' (fun hr => ?_) h⟩
  exact hu.dependent b hr h

theorem running_unchanged_of_after (hs : Sound db) (hm : assertPatchMutable db p = .ok ())
    (ha : Applies jsonSet p.ops db db') (hn : db'.node? a = some n) (hr : n.status = .running) :
    db.node? a = some n := by
  have ⟨n', hn', hr'⟩ := ha.running hn hr
  have ⟨hn'', _⟩ := running_unchanged (b := a) hs hm ha hn' hr'
  cases hn.symm.trans hn''
  exact hn'

theorem sound_applies (hs : Sound db) (hm : assertPatchMutable db p = .ok ())
    (ha : Applies jsonSet p.ops db db') : Sound db' :=
  fun a n hn hr => hs a n (running_unchanged_of_after hs hm ha hn hr) hr

theorem dependenciesCompleted_patch (hs : Sound db) (hd : DependenciesCompleted db)
    (hm : assertPatchMutable db p = .ok ()) (ha : Applies jsonSet p.ops db db') (ho : ¬Reopens p db) :
    DependenciesCompleted db' := by
  intro a n hn hr b hb
  have hn₀ := running_unchanged_of_after hs hm ha hn hr
  have hb₀ := (running_unchanged hs hm ha hn₀ hr).right.mp hb
  have ⟨m, hm₀, hc⟩ := hd a n hn₀ hr b hb₀
  have ⟨m', hm', hk⟩ := ha.node hm₀
  refine ⟨m', hm', ?_⟩
  cases hk.status with
  | inl hs => exact hs.trans hc
  | inr hs =>
    have ⟨_, u, hu, hi, has⟩ := hs
    have hu : u ∈ p.updateNodes := by simpa [PlanPatch.ops] using hu
    exact absurd ⟨u, hu, has, a, n, hn₀, hr, hi ▸ hb₀⟩ ho

-- An update that sets a field of a completed node reopens it.
theorem applyOps_pending {ops : List Op} {u : NodeUpdate} {m : NodeRow} (h : applyOps jsonSet ops db = .ok db')
    (hu : .update u ∈ ops) (has : u.hasAssignments) (hm : db.node? u.id = some m)
    (hs : m.status = .completed ∨ m.status = .pending) : ∃ m', db'.node? u.id = some m' ∧ m'.status = .pending := by
  induction ops generalizing db m with
  | nil            => cases hu
  | cons op ops hi =>
    obtain ⟨db₁, h₁, h₂⟩ := bind_eq_ok_iff.mp h
    cases List.mem_cons.mp hu with
    | inr hu =>
      obtain ⟨m₁, hm₁, hk⟩ := apply_node h₁ hm
      refine hi h₂ hu hm₁ ?_
      cases hk.status with
      | inl he => exact he ▸ hs
      | inr he => exact .inr he.left
    | inl hu =>
      subst hu
      obtain ⟨_, read, hr, hl⟩ := updateNode_ok h₁
      have hread : read = m := by
        obtain ⟨hr, _⟩ := Option.filter_eq_some_iff.mp hr
        exact Option.some.inj (hr.symm.trans hm)
      have hm₁ : db₁.node? u.id = some (u.set jsonSet m.status.resets m) := by
        simp [hl, has, hm, hread]
      have hp : (u.set jsonSet m.status.resets m).status = .pending := by
        cases hs with
        | inl hs => simp [NodeUpdate.set, Status.resets, hs]
        | inr hs => simp [NodeUpdate.set, Status.resets, hs]
      obtain ⟨m', hm', hk⟩ := (Applies.of_applyOps h₂).node hm₁
      refine ⟨m', hm', ?_⟩
      cases hk.status with
      | inl he => exact he.trans hp
      | inr he => exact he.left

theorem applyPatch_firstRead : applyPatch jsonSet (p.firstRead db) p db = applyOps jsonSet p.ops db := by
  unfold applyPatch PlanPatch.firstRead
  cases p.ops with
  | nil      => rfl
  | cons _ _ => rfl

theorem not_dependenciesCompleted_patch (hs : Sound db) (hd : DependenciesCompleted db)
    (hc : Committed jsonSet p db db') (ho : Reopens p db) : ¬DependenciesCompleted db' := by
  intro hd'
  obtain ⟨u, hu, has, a, n, hn, hr, hb⟩ := ho
  obtain ⟨hn', hb'⟩ := running_unchanged (b := u.id) hs hc.mutable (.of_applyPatch hc.applied) hn hr
  obtain ⟨m, hm, hcm⟩ := hd a n hn hr u.id hb
  have ho : .update u ∈ p.ops := by simpa [PlanPatch.ops] using hu
  obtain ⟨m', hm', hp⟩ := applyOps_pending (applyPatch_firstRead ▸ hc.applied) ho has hm (.inl hcm)
  obtain ⟨_, hm'', hcm'⟩ := hd' a n hn' hr u.id (hb'.mpr hb)
  cases hm'.symm.trans hm''
  simp [hp] at hcm'

end Patch

section System

variable {c : Call} {db₀ db₁ db₂ : Db} {cs : List Call}

theorem patch_snd_cases (jsonSet : Json → Json.Dict → Option Json) (p : PlanPatch) (db : Db) :
    (patch jsonSet p db).snd = db ∨
      (∃ r, (patch jsonSet p db).fst = .ok r) ∧ Committed jsonSet p db (patch jsonSet p db).snd := by
  cases patch_cases jsonSet p db with
  | inl h =>
    have ⟨_, h⟩ := h
    exact .inl (congrArg Prod.snd h)
  | inr h =>
    have ⟨r, _, h, hc⟩ := h
    rw [h]
    exact .inr ⟨⟨r, rfl⟩, hc⟩

theorem sound_call (hs : Sound db) : Sound (db.call jsonSet c) := by
  cases c with
  | patch p =>
    cases patch_snd_cases jsonSet p db with
    | inl h => exact show Sound (patch jsonSet p db).snd from h.symm ▸ hs
    | inr h => exact sound_applies hs h.right.mutable (.of_applyPatch h.right.applied)
  | scan => exact hs
  | start nodeId =>
    cases startNode_cases nodeId db with
    | inl h => exact show Sound (startNode nodeId db).snd from h.symm ▸ hs
    | inr h =>
      intro id m hm hr
      have ⟨n, hn, hrun, _, hl⟩ := h
      rw [Db.call, hl] at hm
      split at hm
      case isFalse => exact hs id m hm hr
      case isTrue  =>
        cases hm
        simp only [runnable, Bool.and_eq_true, Bool.not_eq_true'] at hrun
        exact hrun.left.left
  | finish nodeId completed =>
    intro id m hm hr
    have ⟨n, hn, hf⟩ := Option.map_eq_some_iff.mp (finish_node?.symm.trans hm)
    split at hf
    case isFalse => exact hs id m (hf ▸ hn) hr
    case isTrue  =>
      subst hf
      cases completed <;> simp at hr

theorem endpoints_call (he : Endpoints db) : Endpoints (db.call jsonSet c) := by
  cases c with
  | patch p =>
    cases patch_snd_cases jsonSet p db with
    | inl h => exact show Endpoints (patch jsonSet p db).snd from h.symm ▸ he
    | inr h =>
      intro a b hd
      obtain ⟨_, m, hm, _, hi⟩ := (validateGraph_ok h.right.valid).endpoints hd
      exact ⟨m, node?_eq_some_iff.mpr ⟨hm, hi⟩⟩
  | scan => exact he
  | start nodeId =>
    cases startNode_cases nodeId db with
    | inl h => exact show Endpoints (startNode nodeId db).snd from h.symm ▸ he
    | inr h =>
      obtain ⟨n, _, _, hd, hl⟩ := h
      intro a b hb
      rw [DependsOn, Db.call, hd] at hb
      obtain ⟨m, hm⟩ := he a b hb
      rw [Db.call, hl]
      split
      case isTrue  => exact ⟨_, rfl⟩
      case isFalse => exact ⟨m, hm⟩
  | finish nodeId completed =>
    intro a b hb
    obtain ⟨m, hm⟩ := he a b hb
    exact ⟨_, finish_node?.trans (congrArg _ hm)⟩

theorem runnable_dependency {m : NodeRow} (h : runnable db n) (hd : DependsOn db n.id b) (hm : db.node? b = some m) :
    m.status = .completed := by
  simp only [runnable, Bool.and_eq_true, List.all_eq_true] at h
  obtain ⟨edge, he, hs, ht⟩ := dependsOn_iff.mp hd
  obtain ⟨hm, hi⟩ := node?_eq_some_iff.mp hm
  have hc := h.right edge he
  simp only [hs, ne_eq, not_true_eq_false, false_or, decide_eq_true_eq] at hc
  simpa [ht, hi] using hc m hm

theorem runnable_status (h : runnable db n) : n.status ≠ .completed := by
  intro hc
  simp [runnable, hc] at h

theorem dependenciesCompleted_call (hs : Sound db) (he : Endpoints db) (hd : DependenciesCompleted db)
    (ho : ∀ p, c = .patch p → (∃ r, (patch jsonSet p db).fst = .ok r) → ¬Reopens p db) :
    DependenciesCompleted (db.call jsonSet c) := by
  cases c with
  | patch p =>
    cases patch_snd_cases jsonSet p db with
    | inl h => exact show DependenciesCompleted (patch jsonSet p db).snd from h.symm ▸ hd
    | inr h =>
      have ha := Applies.of_applyPatch h.right.applied
      exact dependenciesCompleted_patch hs hd h.right.mutable ha (ho p rfl h.left)
  | scan => exact hd
  | start nodeId =>
    cases startNode_cases nodeId db with
    | inl h => exact show DependenciesCompleted (startNode nodeId db).snd from h.symm ▸ hd
    | inr h =>
      obtain ⟨n, hn, hrun, hed, hl⟩ := h
      intro a m hm hr b hb
      rw [DependsOn, Db.call, hed] at hb
      -- The node that starts is not completed, so that no running node depends on it.
      have hc : ∃ d, db.node? b = some d ∧ d.status = .completed := by
        rw [Db.call, hl] at hm
        split at hm
        case isFalse    => exact hd a m hm hr b hb
        case isTrue hid =>
          obtain ⟨d, hdn⟩ := he a b hb
          have hni := (node?_eq_some_iff.mp hn).right
          refine ⟨d, hdn, runnable_dependency hrun ?_ hdn⟩
          rwa [hni, ← hid]
      obtain ⟨d, hdn, hcd⟩ := hc
      have hne : b ≠ nodeId := by
        intro hb
        cases hdn.symm.trans (hb ▸ hn)
        exact runnable_status hrun hcd
      exact ⟨d, by rw [Db.call, hl, if_neg hne, hdn], hcd⟩
  | finish nodeId completed =>
    intro a m hm hr b hb
    obtain ⟨n, hn, hf⟩ := Option.map_eq_some_iff.mp (finish_node?.symm.trans hm)
    split at hf
    case isTrue  =>
      subst hf
      cases completed <;> simp at hr
    case isFalse =>
      subst hf
      obtain ⟨d, hdn, hcd⟩ := hd a n hn hr b hb
      exact ⟨d, finish_node?.trans (by simp [hdn, hcd]), hcd⟩

theorem invariant_init (hi : (calls jsonSet).init db) : Sound db ∧ Endpoints db ∧ DependenciesCompleted db := by
  have hn {id : String} {n : NodeRow} : db.node? id ≠ some n := by simp [Db.node?, hi.left]
  refine ⟨fun _ _ h => absurd h hn, fun a b h => ?_, fun _ _ h => absurd h hn⟩
  simp [DependsOn, hi.right] at h

theorem call_of_step (h : (calls jsonSet).step db₁ c = some db₂) : db₁.call jsonSet c = db₂ :=
  Option.some.inj h

theorem sound_run (hi : (calls jsonSet).init db₀) (hr : (calls jsonSet).run db₀ cs = some db) : Sound db :=
  TransitionSystem.run_preserves (I := Sound) (fun hs h => call_of_step h ▸ sound_call hs)
    (invariant_init hi).left hr

theorem dependenciesCompleted_run (hi : (calls jsonSet).init db₀) (hr : (calls jsonSet).run db₀ cs = some db)
    (ho : ∀ db₁ p db₂, (calls jsonSet).Occurs db₀ cs db₁ (.patch p) db₂ →
      (∃ r, (patch jsonSet p db₁).fst = .ok r) → ¬Reopens p db₁) : DependenciesCompleted db := by
  suffices h : Sound db ∧ Endpoints db ∧ DependenciesCompleted db from h.right.right
  revert ho
  refine TransitionSystem.run_induction (M := calls jsonSet) (I := fun cs db => (∀ db₁ p db₂,
    (calls jsonSet).Occurs db₀ cs db₁ (.patch p) db₂ → (∃ r, (patch jsonSet p db₁).fst = .ok r) →
      ¬Reopens p db₁) → Sound db ∧ Endpoints db ∧ DependenciesCompleted db) ?nil ?concat hr
  case nil => exact fun _ => invariant_init hi
  case concat =>
    intro as c s₁ s₂ hr hI hs ho
    have ⟨h₁, h₂, h₃⟩ := hI fun _ _ _ h => ho _ _ _ h.append
    have hc := call_of_step hs
    subst hc
    refine ⟨sound_call h₁, endpoints_call h₂, dependenciesCompleted_call h₁ h₂ h₃ fun p hp => ?_⟩
    subst hp
    exact ho _ p _ (.last hr hs)

-- All states of a run keep the promise exactly if no committed patch of the run reopens a dependency.
theorem running_dependencies (hi : (calls jsonSet).init db₀) (hr : (calls jsonSet).run db₀ cs = some db) :
    (∀ pre db', pre <+: cs → (calls jsonSet).run db₀ pre = some db' → DependenciesCompleted db') ↔
      ∀ db₁ p db₂, (calls jsonSet).Occurs db₀ cs db₁ (.patch p) db₂ →
        (∃ r, (patch jsonSet p db₁).fst = .ok r) → ¬Reopens p db₁ := by
  constructor
  case mpr =>
    intro ho pre db' ⟨post, hp⟩ hr'
    subst hp
    exact dependenciesCompleted_run hi hr' fun _ _ _ h => ho _ _ _ h.append
  case mp =>
    intro hd db₁ p db₂ ⟨split, run, step⟩ ⟨r, hp⟩ ho
    have h₁ := hd _ db₁ ⟨_, split.symm⟩ run
    have h₂ := hd _ db₂ ⟨_, (split.trans (List.append_cons ..)).symm⟩
      (TransitionSystem.run_concat_eq_some_iff.mpr ⟨_, run, step⟩)
    have hs := call_of_step step
    cases patch_cases jsonSet p db₁ with
    | inl h =>
      have ⟨_, h⟩ := h
      simp [h] at hp
    | inr h =>
      have ⟨_, db', h, hc⟩ := h
      have hdb : db' = db₂ := by
        rw [← hs]
        exact (congrArg Prod.snd h).symm
      exact not_dependenciesCompleted_patch (sound_run hi run) h₁ hc ho (hdb ▸ h₂)

end System

namespace Sample

def keep (payload : Json) (_ : Json.Dict) : Option Json :=
  some payload

def node (id : String) (dependsOn : List String) : PlanNodePatch where
  id        := id
  parentId  := none
  order     := 0
  nodeType  := "task"
  title     := id
  goal      := id
  dependsOn := dependsOn
  extra     := []

def retitle (id : String) : NodeUpdate where
  id       := id
  parentId := none
  order    := none
  nodeType := none
  title    := some (some "new title")
  goal     := none
  extra    := []

def adding (nodes : List PlanNodePatch) : PlanPatch :=
  ⟨[], nodes, [], []⟩

def retitling (id : String) : PlanPatch :=
  ⟨[retitle id], [], [], []⟩

-- The dependency of a running node is reopened by a patch.
def calls : List Call := [
  .scan (some "ready") none, .patch (adding [node "base" [], node "active" ["base"]]), .start "base",
  .finish "base" true, .start "active", .patch (retitling "base")
]

def reopened : Db :=
  calls.foldl (Db.call keep) .empty

theorem reopened_not : ¬DependenciesCompleted reopened := by
  intro h
  have ha : (reopened.node? "active").map (·.status) = some .running := by decide +kernel
  have hb : (reopened.node? "base").map (·.status) = some .pending := by decide +kernel
  have ⟨_, hn, hr⟩ := Option.map_eq_some_iff.mp ha
  have ⟨_, hm, hc⟩ := h "active" _ hn hr "base" (show _ ∈ reopened.edges.rows by decide +kernel)
  simp [hm, hc] at hb

end Sample

theorem running_dependencies_not : ¬∀ jsonSet db₀ cs db, (calls jsonSet).init db₀ →
    (calls jsonSet).run db₀ cs = some db → DependenciesCompleted db :=
  fun h => Sample.reopened_not <| h Sample.keep .empty Sample.calls _ ⟨rfl, rfl⟩ rfl

theorem running_dependencies_reopened : ¬∀ db₁ p db₂,
    (calls Sample.keep).Occurs .empty Sample.calls db₁ (.patch p) db₂ →
      (∃ r, (patch Sample.keep p db₁).fst = .ok r) → ¬Reopens p db₁ :=
  fun h => Sample.reopened_not <| (@running_dependencies _ Sample.reopened _ _ ⟨rfl, rfl⟩ rfl).mpr h
    Sample.calls _ List.prefix_rfl rfl

end PlanGraph
