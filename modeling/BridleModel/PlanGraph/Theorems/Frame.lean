import BridleModel.PlanGraph.Theorems.Integrity

open Except

namespace PlanGraph

variable {jsonSet : Json → Json.Dict → Option Json} {row : Option NodeRow} {db db' : Db} {id a b : String}
  {n : NodeRow} {edge : EdgeRow}

theorem node?_eq_some_iff : db.node? id = some n ↔ n ∈ db.nodes ∧ n.id = id := by
  rw [Db.node?, Table.lookup_eq_some_iff, List.mem_singleton, eq_comm (a := id)]

theorem lookup_modify_id {p : NodeRow → Bool} {f : NodeRow → NodeRow}
    {hk : ∀ row, p row → [(f row).id] ⊆ [row.id]} (hf : ∀ row, (f row).id = row.id) :
    (db.nodes.modify p f hk).lookup id = (db.nodes.lookup id).map fun row => if p row then f row else row :=
  Table.lookup_modify_of_keys_eq (fun row _ => by rw [hf row]) id

section Turns

theorem mem_insertDependencies {edges edges' : Table EdgeRow fun row => [row]} {new : List EdgeRow}
    (h : new.foldlM insertDependency edges = .ok edges') : edge ∈ edges' ↔ edge ∈ edges ∨ edge ∈ new := by
  induction new generalizing edges with
  | nil          =>
    cases h
    simp
  | cons e es hi =>
    have ⟨edges₁, h₁, h₂⟩ := bind_eq_ok_iff.mp h
    unfold insertDependency at h₁
    split at h₁
    case h_1   => cases h₁
    case h_2 hn =>
      cases h₁
      simp [hi h₂, Table.mem_insert? hn, or_assoc]

theorem insertDependencies_ok {targets : List String} (h : insertDependencies db a targets = .ok db') :
    db'.nodes = db.nodes ∧
      ∀ edge, edge ∈ db'.edges ↔ edge ∈ db.edges ∨ ∃ b ∈ targets, ⟨a, b, "depends_on"⟩ = edge := by
  have ⟨edges, he, h⟩ := bind_eq_ok_iff.mp h
  cases h
  refine ⟨rfl, fun edge => ?_⟩
  rw [mem_insertDependencies he, List.mem_map]

theorem addNode_ok {node : PlanNodePatch} (h : addNode row node db = .ok db') :
    (∃ new, db.nodes.insert? new = some db'.nodes ∧ new.id = node.id ∧ new.status = .pending) ∧
      ∀ edge, edge ∈ db'.edges ↔ edge ∈ db.edges ∨ ∃ b ∈ node.dependsOn, ⟨node.id, b, "depends_on"⟩ = edge := by
  have ⟨_, _, h⟩ := bind_eq_ok_iff.mp h
  have ⟨_, _, h⟩ := bind_eq_ok_iff.mp h
  simp only at h
  split at h
  case h_1 => cases h
  case h_2 hn =>
    have ⟨_, hi, h⟩ := bind_eq_ok_iff.mp h
    cases h
    have ⟨hns, he⟩ := insertDependencies_ok hi
    exact ⟨⟨_, hn.trans (congrArg some hns.symm), rfl, rfl⟩, he⟩

theorem updateNode_ok {u : NodeUpdate} (h : updateNode jsonSet row u db = .ok db') :
    db'.edges = db.edges ∧ ∃ read, row = some read ∧ ∀ id, db'.node? id =
      if id = u.id ∧ u.hasAssignments then (db.node? id).map (u.set jsonSet read.status.resets) else db.node? id := by
  unfold updateNode at h
  split at h
  case h_1      => cases h
  case h_2 read =>
    split at h
    case isFalse hs =>
      cases h
      exact ⟨rfl, read, rfl, fun _ => by simp [hs, Db.recordChange, Db.node?]⟩
    case isTrue hs =>
      obtain ⟨_, _, h⟩ := bind_eq_ok_iff.mp h
      obtain ⟨_, _, h⟩ := bind_eq_ok_iff.mp h
      obtain ⟨_, _, h⟩ := bind_eq_ok_iff.mp h
      cases h
      refine ⟨rfl, read, rfl, fun id => ?_⟩
      simp only [Db.recordChange, Db.node?, hs, and_true]
      rw [lookup_modify_id (f := u.set jsonSet read.status.resets) fun _ => rfl]
      cases hl : db.nodes.lookup id with
      | none     => simp
      | some row =>
        have hi : id = row.id := by simpa using Table.lookup_key hl
        by_cases h : id = u.id
        case pos => simp [h, ← hi]
        case neg => simp [h, ← hi]

theorem replaceDependencies_ok {r : DependencyReplace} (h : replaceDependencies row r db = .ok db') :
    db'.nodes = db.nodes ∧ ∀ edge, edge ∈ db'.edges ↔
      (edge ∈ db.edges ∧ ¬(edge.sourceId = r.nodeId ∧ edge.kind = "depends_on")) ∨
        ∃ b ∈ r.dependsOn, ⟨r.nodeId, b, "depends_on"⟩ = edge := by
  have ⟨_, _, h⟩ := bind_eq_ok_iff.mp h
  have ⟨_, hi, h⟩ := bind_eq_ok_iff.mp h
  cases h
  have ⟨hn, he⟩ := insertDependencies_ok hi
  refine ⟨hn, fun edge => ?_⟩
  simp only [Db.recordChange, he, Table.mem_delete, decide_eq_false_iff_not]

theorem removeNode_ok {nodeId : String} (h : removeNode nodeId db = .ok db') :
    (∀ id, db'.node? id =
      if id = nodeId then (db.node? id).map ({ · with archived := true }) else db.node? id) ∧
      ∀ edge, edge ∈ db'.edges ↔ edge ∈ db.edges ∧ edge.sourceId ≠ nodeId ∧ edge.targetId ≠ nodeId := by
  have ⟨_, _, h⟩ := bind_eq_ok_iff.mp h
  cases h
  constructor
  case left =>
    intro id
    simp only [Db.recordChange, Db.node?]
    rw [lookup_modify_id (f := fun row => { row with archived := true }) fun _ => rfl]
    cases hl : db.nodes.lookup id with
    | none     => simp
    | some row =>
      have hi : id = row.id := by simpa using Table.lookup_key hl
      by_cases h : id = nodeId
      case neg => simp [h, ← hi]
      case pos =>
        cases ha : row.archived with
        | false => simp [h, ← hi, ha]
        | true  =>
          have he : { row with archived := true } = row := by rw [← ha]
          rw [if_pos h, Option.map_some, Option.map_some, he, if_neg (by simp [ha])]
  case right =>
    intro edge
    simp [Db.recordChange, Table.mem_delete]

end Turns

-- The node that a turn may only touch while it is not running.
def Op.direct : Op → Option String
  | add _         => none
  | update u      => u.id
  | replace r     => r.nodeId
  | remove nodeId => nodeId

-- The status of a node changes at most to pending, by an update that sets a field.
structure Keeps (ops : List Op) (id : String) (n n' : NodeRow) : Prop where
  archived : .remove id ∉ ops → n'.archived = n.archived
  status   : n'.status = n.status ∨
    n'.status = .pending ∧ ∃ u, .update u ∈ ops ∧ u.id = id ∧ u.hasAssignments
  row      : (∀ op ∈ ops, op.direct ≠ some id) → n' = n

theorem Keeps.refl {ops : List Op} : Keeps ops id n n :=
  ⟨fun _ => rfl, .inl rfl, fun _ => rfl⟩

theorem Keeps.trans {op : Op} {ops : List Op} {n₁ n₂ : NodeRow} (h : Keeps [op] id n n₁) (h' : Keeps ops id n₁ n₂) :
    Keeps (op :: ops) id n n₂ where
  archived hr := by
    have hr := not_or.mp (hr ∘ List.mem_cons.mpr)
    exact (h'.archived hr.right).trans <| h.archived fun hm => hr.left (List.mem_singleton.mp hm)
  status := by
    cases h'.status with
    | inr hs =>
      have ⟨hp, u, hu, hi⟩ := hs
      exact .inr ⟨hp, u, List.mem_cons_of_mem _ hu, hi⟩
    | inl hs =>
      cases h.status with
      | inl hs' => exact .inl (hs.trans hs')
      | inr hs' =>
        have ⟨hp, u, hu, hi⟩ := hs'
        exact .inr ⟨hs.trans hp, u, List.mem_cons.mpr (.inl (List.mem_singleton.mp hu)), hi⟩
  row hd := by
    have hd' : ∀ op' ∈ [op], op'.direct ≠ some id := by simpa using hd op List.mem_cons_self
    exact (h'.row fun op hm => hd op (List.mem_cons_of_mem _ hm)).trans (h.row hd')

section Apply

variable {op : Op}

theorem apply_node (h : op.apply jsonSet row db = .ok db') (hn : db.node? id = some n) :
    ∃ n', db'.node? id = some n' ∧ Keeps [op] id n n' := by
  cases op with
  | add node =>
    have ⟨⟨new, hi, hk, _⟩, _⟩ := addNode_ok h
    refine ⟨n, ?_, .refl⟩
    have ⟨hm, hid⟩ := node?_eq_some_iff.mp hn
    exact node?_eq_some_iff.mpr ⟨(Table.mem_insert? hi).mpr (.inl hm), hid⟩
  | update u =>
    have ⟨_, read, _, hl⟩ := updateNode_ok h
    rw [hl, hn]
    split
    case isFalse    => exact ⟨n, rfl, .refl⟩
    case isTrue hid =>
      refine ⟨_, rfl, fun _ => rfl, ?_, fun hd => ?_⟩
      · cases hr : read.status.resets with
        | false => exact .inl (by simp [NodeUpdate.set])
        | true  => exact .inr ⟨by simp [NodeUpdate.set], u, List.mem_singleton.mpr rfl, hid.left.symm, hid.right⟩
      · exact absurd (congrArg some hid.left.symm) (hd _ (List.mem_singleton.mpr rfl))
  | replace r =>
    have ⟨hns, _⟩ := replaceDependencies_ok h
    exact ⟨n, by rwa [Db.node?, hns], .refl⟩
  | remove nodeId =>
    have ⟨hl, _⟩ := removeNode_ok h
    rw [hl, hn]
    split
    case isFalse    => exact ⟨n, rfl, .refl⟩
    case isTrue hid =>
      refine ⟨_, rfl, fun hr => ?_, .inl rfl, fun hd => ?_⟩
      · exact absurd (List.mem_singleton.mpr (congrArg Op.remove hid)) hr
      · exact absurd (congrArg some hid.symm) (hd _ (List.mem_singleton.mpr rfl))

theorem apply_new (h : op.apply jsonSet row db = .ok db') (hn : db.node? id = none)
    (hn' : db'.node? id = some n) : n.status = .pending := by
  cases op with
  | add node =>
    have ⟨⟨new, hi, _, hs⟩, _⟩ := addNode_ok h
    have ⟨hm, hid⟩ := node?_eq_some_iff.mp hn'
    cases (Table.mem_insert? hi).mp hm with
    | inl hm => simp [node?_eq_some_iff.mpr ⟨hm, hid⟩] at hn
    | inr hm => exact hm ▸ hs
  | update u =>
    have ⟨_, _, _, hl⟩ := updateNode_ok h
    simp [hl, hn] at hn'
  | replace r =>
    have ⟨hns, _⟩ := replaceDependencies_ok h
    rw [Db.node?, hns, ← Db.node?, hn] at hn'
    cases hn'
  | remove nodeId =>
    have ⟨hl, _⟩ := removeNode_ok h
    simp [hl, hn] at hn'

-- The dependencies of a node that is not touched itself: a removed one may drop out.
theorem apply_dependsOn (h : op.apply jsonSet row db = .ok db') (hn : db.node? a = some n)
    (hd : op.direct ≠ some a) :
    (DependsOn db' a b → DependsOn db a b) ∧ (op ≠ .remove b → DependsOn db a b → DependsOn db' a b) := by
  cases op with
  | add node =>
    obtain ⟨⟨new, hi, hk, _⟩, he⟩ := addNode_ok h
    obtain ⟨hm, hid⟩ := node?_eq_some_iff.mp hn
    have hne : node.id ≠ a := by
      intro hna
      refine Table.insert?_fresh hi hm (k := a) ?_ ?_
      · exact List.mem_singleton.mpr hid.symm
      · exact List.mem_singleton.mpr (hna.symm.trans hk.symm)
    refine ⟨fun h => ?_, fun _ h => (he _).mpr (.inl h)⟩
    cases (he _).mp h with
    | inl h => exact h
    | inr h =>
      obtain ⟨_, _, h⟩ := h
      exact absurd (EdgeRow.mk.inj h).left hne
  | update u =>
    obtain ⟨he, _⟩ := updateNode_ok h
    have hiff : DependsOn db' a b ↔ DependsOn db a b := by rw [DependsOn, DependsOn, he]
    exact ⟨hiff.mp, fun _ => hiff.mpr⟩
  | replace r =>
    obtain ⟨_, he⟩ := replaceDependencies_ok h
    have hne : r.nodeId ≠ a := fun h => hd (congrArg some h)
    refine ⟨fun h => ?_, fun _ h => (he _).mpr (.inl ⟨h, fun hs => hne hs.left.symm⟩)⟩
    cases (he _).mp h with
    | inl h => exact h.left
    | inr h =>
      obtain ⟨_, _, h⟩ := h
      exact absurd (EdgeRow.mk.inj h).left hne
  | remove nodeId =>
    obtain ⟨_, he⟩ := removeNode_ok h
    refine ⟨fun h => ((he _).mp h).left, fun hr h => (he _).mpr ⟨h, fun hs => ?_, fun ht => ?_⟩⟩
    · exact hd (congrArg some hs.symm)
    · exact hr (congrArg Op.remove ht.symm)

end Apply

-- The turns of a patch, whatever each SELECT has found.
inductive Applies (jsonSet : Json → Json.Dict → Option Json) : List Op → Db → Db → Prop
  | nil {db : Db} : Applies jsonSet [] db db
  | cons {db : Db} {row : Option NodeRow} (head : op.apply jsonSet row db = .ok db₁)
    (tail : Applies jsonSet ops db₁ db₂) : Applies jsonSet (op :: ops) db db₂

namespace Applies

variable {ops : List Op}

theorem of_applyOps (h : applyOps jsonSet ops db = .ok db') : Applies jsonSet ops db db' := by
  induction ops generalizing db with
  | nil => cases h; exact .nil
  | cons op ops hi =>
    have ⟨_, h₁, h₂⟩ := bind_eq_ok_iff.mp h
    exact .cons h₁ (hi h₂)

theorem of_applyPatch {p : PlanPatch} (h : applyPatch jsonSet row p db = .ok db') : Applies jsonSet p.ops db db' := by
  unfold applyPatch at h
  split at h
  case h_1 ho =>
    cases h
    rw [ho]
    exact .nil
  case h_2 ho =>
    have ⟨_, h₁, h₂⟩ := bind_eq_ok_iff.mp h
    rw [ho]
    exact .cons h₁ (of_applyOps h₂)

theorem node (h : Applies jsonSet ops db db') (hn : db.node? id = some n) :
    ∃ n', db'.node? id = some n' ∧ Keeps ops id n n' := by
  induction h generalizing n with
  | nil               => exact ⟨n, hn, .refl⟩
  | cons head tail hi =>
    have ⟨n₁, hn₁, hk⟩ := apply_node head hn
    have ⟨n₂, hn₂, hk'⟩ := hi hn₁
    exact ⟨n₂, hn₂, hk.trans hk'⟩

theorem dependsOn (h : Applies jsonSet ops db db') (hn : db.node? a = some n)
    (hd : ∀ op ∈ ops, op.direct ≠ some a) :
    (DependsOn db' a b → DependsOn db a b) ∧ (.remove b ∉ ops → DependsOn db a b → DependsOn db' a b) := by
  induction h generalizing n with
  | nil               => exact ⟨fun h => h, fun _ h => h⟩
  | cons head tail hi =>
    have hd' := hd _ List.mem_cons_self
    have ⟨n₁, hn₁, _⟩ := apply_node head hn
    have ⟨h₁, h₁'⟩ := apply_dependsOn (b := b) head hn hd'
    have ⟨h₂, h₂'⟩ := hi hn₁ fun op hm => hd op (List.mem_cons_of_mem _ hm)
    refine ⟨h₁ ∘ h₂, fun hr => ?_⟩
    have hr := not_or.mp (hr ∘ List.mem_cons.mpr)
    exact h₂' hr.right ∘ h₁' (Ne.symm hr.left)

theorem running (h : Applies jsonSet ops db db') (hn : db'.node? id = some n) (hr : n.status = .running) :
    ∃ n', db.node? id = some n' ∧ n'.status = .running := by
  induction h with
  | nil               => exact ⟨n, hn, hr⟩
  | @cons _ _ _ _ db _ head tail hi =>
    have ⟨n₁, hn₁, hr₁⟩ := hi hn
    cases hn₀ : db.node? id with
    | none    => simp [apply_new head hn₀ hn₁] at hr₁
    | some n₀ =>
      have ⟨n₂, hn₂, hk⟩ := apply_node head hn₀
      cases hn₁.symm.trans hn₂
      cases hk.status with
      | inl hs => exact ⟨n₀, rfl, hs.symm.trans hr₁⟩
      | inr hs => simp [hs.left] at hr₁

end Applies

section Mutable

variable {p : PlanPatch}

-- Only nodes of the plan run.
def Sound (db : Db) : Prop :=
  ∀ id n, db.node? id = some n → n.status = .running → n.archived = false

theorem mem_directIds {op : Op} (h : op ∈ p.ops) (hd : op.direct = some id) : id ∈ p.directIds := by
  simp only [PlanPatch.ops, List.mem_append, List.mem_map] at h
  simp only [PlanPatch.directIds, List.mem_append, List.mem_map]
  rcases h with ((⟨_, _, rfl⟩ | ⟨u, hu, rfl⟩) | ⟨r, hr, rfl⟩) | ⟨i, hi, rfl⟩
  · cases hd
  · exact .inl (.inl ⟨u, hu, Option.some.inj hd⟩)
  · exact .inr ⟨r, hr, Option.some.inj hd⟩
  · exact .inl (.inr (Option.some.inj hd ▸ hi))

theorem mem_removeNodeIds (h : .remove id ∈ p.ops) : id ∈ p.removeNodeIds := by
  simpa [PlanPatch.ops] using h

structure Unaffected (p : PlanPatch) (db : Db) (n : NodeRow) : Prop where
  direct    : ∀ op ∈ p.ops, op.direct ≠ some n.id
  dependent : ∀ id, .remove id ∈ p.ops → ¬DependsOn db n.id id
  child     : ∀ id, .remove id ∈ p.ops → n.parentId ≠ some id

theorem assertPatchMutable_ok (h : assertPatchMutable db p = .ok ()) (hn : n ∈ db.nodes)
    (ha : n.archived = false) (hr : n.status = .running) : Unaffected p db n := by
  have hn : n ∈ db.activeNodes := mem_activeNodes.mpr ⟨hn, ha⟩
  have he := not_not.mp (raiseIf_eq_ok_iff.mp h)
  have ⟨hi, hd⟩ := List.append_eq_nil_iff.mp he
  constructor
  case direct =>
    intro op ho hd
    have hm : n.id ∈ runningIds db p.directIds :=
      List.mem_map.mpr ⟨n, List.mem_filter.mpr ⟨hn, by simp [hr, mem_directIds ho hd]⟩, rfl⟩
    simp [hi] at hm
  case dependent =>
    intro id ho hdep
    have hm : n.id ∈ runningDependents db id := by
      have ⟨edge, he⟩ := dependsOn_iff.mp hdep
      simp only [runningDependents, List.map_append, List.mem_append, List.mem_map, List.mem_filter,
        List.any_eq_true, decide_eq_true_eq]
      exact .inl ⟨n, ⟨⟨hn, hr⟩, edge, he⟩, rfl⟩
    simp [List.flatMap_eq_nil_iff.mp hd id (mem_removeNodeIds ho)] at hm
  case child =>
    intro id ho hp
    have hm : n.id ∈ runningDependents db id := by
      simp only [runningDependents, List.map_append, List.mem_append, List.mem_map, List.mem_filter,
        decide_eq_true_eq]
      exact .inr ⟨n, ⟨⟨hn, hr⟩, hp⟩, rfl⟩
    simp [List.flatMap_eq_nil_iff.mp hd id (mem_removeNodeIds ho)] at hm

end Mutable
end PlanGraph
