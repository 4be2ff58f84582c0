import BridleModel.PlanGraph.Store

open Except Relation

namespace PlanGraph

section Graph

def Active (db : Db) (id : String) : Prop :=
  ∃ row ∈ db.nodes, row.archived = false ∧ row.id = id

def DependsOn (db : Db) (a b : String) : Prop :=
  ⟨a, b, "depends_on"⟩ ∈ db.edges

def Parent (db : Db) (a b : String) : Prop :=
  ∃ row ∈ db.nodes, row.archived = false ∧ row.id = a ∧ row.parentId = some b

structure Integrity (db : Db) : Prop where
  parents      : Parent db a b → Active db b
  endpoints    : DependsOn db a b → Active db a ∧ Active db b
  dependencies : ¬∃ a, TransGen (DependsOn db) a a
  hierarchy    : ¬∃ a, TransGen (Parent db) a a

variable {db : Db} {a b : String}

theorem mem_activeNodes {row : NodeRow} : row ∈ db.activeNodes ↔ row ∈ db.nodes ∧ row.archived = false := by
  simp [Db.activeNodes, Table.mem_def]

theorem mem_activeIds : a ∈ db.activeIds ↔ Active db a := by
  simp [Db.activeIds, mem_activeNodes, Active, and_assoc]

theorem mem_dependencies {edge : EdgeRow} :
    edge ∈ db.dependencies ↔ edge ∈ db.edges ∧ edge.kind = "depends_on" := by
  simp [Db.dependencies, Table.mem_def]

theorem dependsOn_iff : DependsOn db a b ↔ ∃ edge ∈ db.dependencies, edge.sourceId = a ∧ edge.targetId = b := by
  constructor
  case mp => exact fun h => ⟨_, mem_dependencies.mpr ⟨h, rfl⟩, rfl, rfl⟩
  case mpr =>
    intro ⟨edge, hm, hs, ht⟩
    have ⟨hm, hk⟩ := mem_dependencies.mp hm
    rw [DependsOn, ← hk, ← hs, ← ht]
    exact hm

theorem eq_of_id {row row' : NodeRow} (hr : row ∈ db.nodes) (hr' : row' ∈ db.nodes) (h : row.id = row'.id) :
    row = row' :=
  db.nodes.eq_of_mem_keys hr hr' List.mem_cons_self (h ▸ List.mem_cons_self)

end Graph

section Acyclic

variable {adjacency : List (String × List String)} {errorCode : String} {db : Db} {a b : String}

theorem assertAcyclic_ok_iff :
    assertAcyclic adjacency errorCode = .ok () ↔ ¬DepthFirst.Cyclic (adjacent adjacency) := by
  have hk (a : String) (h : adjacent adjacency a ≠ []) : a ∈ adjacency.map (·.fst) := by
    unfold adjacent at h
    cases hg : Assoc.get adjacency a with
    | none   => simp [hg] at h
    | some l => exact List.mem_map.mpr ⟨_, Assoc.mem_of_get hg, rfl⟩
  rw [← DepthFirst.visitAll_isOk_iff hk (show _ < adjacency.length + 1 by simp)]
  unfold assertAcyclic
  split
  case h_1 h => exact iff_of_true rfl ⟨_, h⟩
  case h_2 h => simp [h]
  case h_3 h => simp [h]

theorem assertAcyclic_error_iff :
    (∃ e, assertAcyclic adjacency errorCode = .error e) ↔ DepthFirst.Cyclic (adjacent adjacency) := by
  rw [← not_iff_not, ← @assertAcyclic_ok_iff _ errorCode]
  cases assertAcyclic adjacency errorCode with
  | ok    => simp
  | error => simp

theorem edge_of_dependsOn (he : Active db a) (h : DependsOn db a b) :
    DepthFirst.Edge (adjacent db.adjacency) a b := by
  have ⟨edge, hm, hs, ht⟩ := dependsOn_iff.mp h
  have hg : Assoc.get db.adjacency a =
      some ((db.dependencies.filter (·.sourceId = a)).map (·.targetId)) :=
    Assoc.get_map (mem_activeIds.mpr he)
  rw [DepthFirst.Edge, adjacent, hg]
  exact List.mem_map.mpr ⟨edge, List.mem_filter.mpr ⟨hm, by simpa using hs⟩, ht⟩

theorem edge_of_parent (h : Parent db a b) : DepthFirst.Edge (adjacent db.hierarchy) a b := by
  have ⟨row, hm, ha, hi, hp⟩ := h
  have hh : (a, [b]) ∈ db.hierarchy :=
    List.mem_filterMap.mpr ⟨row, mem_activeNodes.mpr ⟨hm, ha⟩, by simp [hi, hp]⟩
  have ⟨l, hg⟩ := Assoc.get_isSome hh
  have ⟨row', hm', he⟩ := List.mem_filterMap.mp (Assoc.mem_of_get hg)
  have ⟨b', hp', he⟩ := Option.map_eq_some_iff.mp he
  have ⟨hi', hl⟩ := Prod.mk.inj he
  have hr : row' = row := eq_of_id (mem_activeNodes.mp hm').left hm (hi'.trans hi.symm)
  subst hr
  rw [DepthFirst.Edge, adjacent, hg, ← hl, Option.some.inj (hp'.symm.trans hp)]
  exact List.mem_singleton.mpr rfl

theorem assertParents_ok (h : assertParents db = .ok ()) (hp : Parent db a b) : Active db b := by
  unfold assertParents at h
  split at h
  case h_2    => cases h
  case h_1 hf =>
    have ⟨row, hm, ha, _, hb⟩ := hp
    have hn := List.find?_eq_none.mp hf row (mem_activeNodes.mpr ⟨hm, ha⟩)
    exact mem_activeIds.mp (by simpa [hb] using hn)

theorem assertEndpoints_ok (h : assertEndpoints db = .ok ()) (hd : DependsOn db a b) :
    Active db a ∧ Active db b := by
  unfold assertEndpoints at h
  split at h
  case h_2    => cases h
  case h_1 hf =>
    have ⟨edge, hm, hs, ht⟩ := dependsOn_iff.mp hd
    have hn := List.find?_eq_none.mp hf edge hm
    simp only [hs, ht, decide_eq_true_eq, not_or, not_not] at hn
    exact ⟨mem_activeIds.mp hn.left, mem_activeIds.mp hn.right⟩

theorem validateGraph_ok (h : validateGraph db = .ok ()) : Integrity db := by
  have ⟨_, hp, h⟩ := bind_eq_ok_iff.mp h
  have ⟨_, he, h⟩ := bind_eq_ok_iff.mp h
  have ⟨_, hd, hh⟩ := bind_eq_ok_iff.mp h
  constructor
  case parents      => exact assertParents_ok hp
  case endpoints    => exact assertEndpoints_ok he
  case dependencies =>
    intro ⟨a, hc⟩
    refine assertAcyclic_ok_iff.mp hd ⟨a, hc.lift id fun _ _ hd => ?_⟩
    exact edge_of_dependsOn (assertEndpoints_ok he hd).left hd
  case hierarchy    =>
    intro ⟨a, hc⟩
    exact assertAcyclic_ok_iff.mp hh ⟨a, hc.lift id fun _ _ => edge_of_parent⟩

end Acyclic

section Patch

variable {jsonSet : Json → Json.Dict → Option Json} {p : PlanPatch} {db db' : Db}

-- A patch that is committed has passed these checks.
structure Committed (jsonSet : Json → Json.Dict → Option Json) (p : PlanPatch) (db db' : Db) : Prop where
  ready   : assertMapReady db = .ok ()
  mutable : assertPatchMutable db p = .ok ()
  applied : applyPatch jsonSet (p.firstRead db) p db = .ok db'
  valid   : validateGraph db' = .ok ()

theorem connect_cases {α : Type} (db : Db) (body : Except Error (α × Db)) :
    (∃ e, body = .error e ∧ connect db body = (.error e, db)) ∨
      ∃ a db', body = .ok (a, db') ∧ connect db body = (.ok a, db') := by
  cases body with
  | error e => exact .inl ⟨e, rfl, rfl⟩
  | ok r    => exact .inr ⟨r.fst, r.snd, rfl, rfl⟩

theorem patch_cases (jsonSet : Json → Json.Dict → Option Json) (p : PlanPatch) (db : Db) :
    (∃ e, patch jsonSet p db = (.error e, db)) ∨
      ∃ r db', patch jsonSet p db = (.ok r, db') ∧ Committed jsonSet p db db' := by
  cases connect_cases db (do
    assertMapReady db
    assertPatchMutable db p
    let db' ← applyPatch jsonSet (p.firstRead db) p db
    validateGraph db'
    return (p.result db', db')) with
  | inl h =>
    have ⟨e, _, h⟩ := h
    exact .inl ⟨e, h⟩
  | inr h =>
    have ⟨r, db', hb, h⟩ := h
    have ⟨_, hr, hb⟩ := bind_eq_ok_iff.mp hb
    have ⟨_, hm, hb⟩ := bind_eq_ok_iff.mp hb
    have ⟨_, ha, hb⟩ := bind_eq_ok_iff.mp hb
    have ⟨_, hv, hb⟩ := bind_eq_ok_iff.mp hb
    cases hb
    exact .inr ⟨_, _, h, hr, hm, ha, hv⟩

end Patch
end PlanGraph
