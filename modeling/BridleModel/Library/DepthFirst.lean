import Mathlib.Data.List.Perm.Subperm
import Mathlib.Logic.Relation
import BridleModel.Library.Except

-- Depth-first search for a cycle, over any successor function.
namespace DepthFirst

variable {α : Type} [DecidableEq α] {succ : α → List α}

inductive Failure (α : Type)
  | cycle (node : α)
  | depth
deriving DecidableEq, Repr

-- `visiting` is the path that leads to the node, `fuel` bounds the depth of the recursion.
def visit (succ : α → List α) : (fuel : Nat) → (visiting visited : List α) → (node : α) →
    Except (Failure α) (List α)
  | 0, _, _, _                             => .error .depth
  | fuel + 1, visiting, visited, node =>
    if node ∈ visiting then
      .error (.cycle node)
    else if node ∈ visited then
      .ok visited
    else do
      let visited ← (succ node).foldlM (visit succ fuel (node :: visiting)) visited
      return node :: visited

def visitAll (succ : α → List α) (fuel : Nat) (visiting visited nodes : List α) :
    Except (Failure α) (List α) :=
  nodes.foldlM (visit succ fuel visiting) visited

def Edge (succ : α → List α) (a b : α) : Prop :=
  b ∈ succ a

def Cyclic (succ : α → List α) : Prop :=
  ∃ a, Relation.TransGen (Edge succ) a a

-- The nodes visited so far: a search that starts among them stays there and meets no cycle.
structure Explored (succ : α → List α) (visited : List α) : Prop where
  closed  : a ∈ visited → b ∈ succ a → b ∈ visited
  acyclic : a ∈ visited → ¬Relation.TransGen (Edge succ) a a

variable {fuel : Nat} {visiting visited visited' nodes keys : List α} {node : α} {e : Failure α}

theorem visit_succ : visit succ (fuel + 1) visiting visited node =
    if node ∈ visiting then .error (.cycle node) else if node ∈ visited then .ok visited else
      (node :: ·) <$> visitAll succ fuel (node :: visiting) visited (succ node) := by
  rw [visit, visitAll]
  rfl

theorem visitAll_cons {a : α} {as : List α} : visitAll succ fuel visiting visited (a :: as) =
    (visit succ fuel visiting visited a >>= fun visited => visitAll succ fuel visiting visited as) :=
  rfl

namespace Explored

omit [DecidableEq α] in
theorem nil : Explored succ [] :=
  ⟨nofun, nofun⟩

omit [DecidableEq α] in
theorem reach (h : Explored succ visited) {a b : α} (ha : a ∈ visited)
    (hr : Relation.ReflTransGen (Edge succ) a b) : b ∈ visited := by
  induction hr with
  | refl         => exact ha
  | tail _ he hi => exact h.closed hi he

-- A node is done when all its successors are.
omit [DecidableEq α] in
theorem cons (h : Explored succ visited) (hn : node ∉ visited) (hs : succ node ⊆ visited) :
    Explored succ (node :: visited) where
  closed ha hb := by
    cases List.mem_cons.mp ha with
    | inl ha => exact List.mem_cons_of_mem _ (hs (ha ▸ hb))
    | inr ha => exact List.mem_cons_of_mem _ (h.closed ha hb)
  acyclic ha hc := by
    cases List.mem_cons.mp ha with
    | inr ha => exact h.acyclic ha hc
    | inl ha =>
      subst ha
      have ⟨b, he, hr⟩ := Relation.TransGen.head'_iff.mp hc
      exact hn <| h.reach (hs he) hr

end Explored

-- What a search that meets no cycle adds: nothing on the path to it.
structure Extends (succ : α → List α) (visiting visited visited' nodes : List α) : Prop where
  explored : Explored succ visited'
  mono     : visited ⊆ visited'
  nodes    : nodes ⊆ visited'
  path     : a ∈ visiting → a ∈ visited' → a ∈ visited

theorem visitAll_ok (hv : ∀ {visited visited' node}, Explored succ visited →
      visit succ fuel visiting visited node = .ok visited' → Extends succ visiting visited visited' [node])
    (he : Explored succ visited) (h : visitAll succ fuel visiting visited nodes = .ok visited') :
    Extends succ visiting visited visited' nodes := by
  induction nodes generalizing visited with
  | nil          =>
    cases h
    exact ⟨he, List.Subset.refl visited', List.nil_subset _, fun _ h => h⟩
  | cons n ns hi =>
    rw [visitAll_cons] at h
    have ⟨visited₁, h₁, h₂⟩ := Except.bind_eq_ok_iff.mp h
    have e₁ : Extends succ visiting visited visited₁ [n] := hv he h₁
    have e₂ := hi e₁.explored h₂
    exact {
      explored := e₂.explored
      mono     := List.Subset.trans e₁.mono e₂.mono
      nodes    := List.cons_subset.mpr ⟨e₂.mono (e₁.nodes List.mem_cons_self), e₂.nodes⟩
      path     := fun hp hm => e₁.path hp (e₂.path hp hm)
    }

theorem visit_ok (he : Explored succ visited) (h : visit succ fuel visiting visited node = .ok visited') :
    Extends succ visiting visited visited' [node] := by
  induction fuel generalizing visiting visited visited' node with
  | zero         => cases h
  | succ fuel hi =>
    rw [visit_succ] at h
    split at h
    case isTrue      => cases h
    case isFalse hnp =>
      split at h
      case isTrue hn =>
        cases h
        exact ⟨he, List.Subset.refl _, by simpa using hn, fun _ h => h⟩
      case isFalse hn =>
        have ⟨visited₁, h₁, he'⟩ := Except.map_eq_ok_iff.mp h
        subst he'
        have e₁ := visitAll_ok hi he h₁
        have hn₁ : node ∉ visited₁ := hn ∘ e₁.path List.mem_cons_self
        constructor
        case explored => exact e₁.explored.cons hn₁ e₁.nodes
        case mono     => exact List.Subset.trans e₁.mono (List.subset_cons_self _ _)
        case nodes    => simp
        case path =>
          intro a ha hm
          cases List.mem_cons.mp hm with
          | inl hm => exact absurd (hm ▸ ha) hnp
          | inr hm => exact e₁.path (List.mem_cons_of_mem _ ha) hm

theorem visitAll_error (hv : ∀ node ∈ nodes, ∀ visited, visit succ fuel visiting visited node ≠ .error e) :
    visitAll succ fuel visiting visited nodes ≠ .error e := by
  induction nodes generalizing visited with
  | nil          => exact nofun
  | cons n ns hi =>
    rw [visitAll_cons]
    cases h : visit succ fuel visiting visited n with
    | error e' =>
      intro he
      cases he
      exact hv n List.mem_cons_self visited h
    | ok       => exact hi fun m hm => hv m (List.mem_cons_of_mem _ hm)

-- A back edge closes a cycle.
theorem visit_cycle (hp : ∀ a ∈ visiting, Relation.TransGen (Edge succ) a node)
    (h : ¬Cyclic succ) {a : α} : visit succ fuel visiting visited node ≠ .error (.cycle a) := by
  induction fuel generalizing visiting visited node with
  | zero         => exact nofun
  | succ fuel hi =>
    rw [visit_succ]
    split
    case isTrue hn  => exact fun _ => h ⟨node, hp node hn⟩
    case isFalse hn =>
      split
      case isTrue  => exact nofun
      case isFalse =>
        intro he
        cases hv : visitAll succ fuel (node :: visiting) visited (succ node) with
        | ok      => simp [hv] at he
        | error e =>
          rw [hv] at he
          cases he
          refine visitAll_error (fun m hm _ => hi fun b hb => ?_) hv
          cases List.mem_cons.mp hb with
          | inl hb => exact hb ▸ .single hm
          | inr hb => exact (hp b hb).tail hm

-- The path consists of distinct keys, so that this fuel is enough.
theorem visit_depth (hk : ∀ a, succ a ≠ [] → a ∈ keys) (hp : visiting ⊆ keys) (hd : visiting.Nodup)
    (hf : keys.length < visiting.length + fuel) : visit succ fuel visiting visited node ≠ .error .depth := by
  induction fuel generalizing visiting visited node with
  | zero         =>
    have hl := (List.subperm_of_subset hd hp).length_le
    omega
  | succ fuel hi =>
    rw [visit_succ]
    split
    case isTrue     => exact nofun
    case isFalse hn =>
      split
      case isTrue  => exact nofun
      case isFalse =>
        intro he
        cases hv : visitAll succ fuel (node :: visiting) visited (succ node) with
        | ok      => simp [hv] at he
        | error e =>
          rw [hv] at he
          cases he
          refine visitAll_error (fun m hm _ => ?_) hv
          have hm : node ∈ keys := hk node (List.ne_nil_of_mem hm)
          exact hi (List.cons_subset.mpr ⟨hm, hp⟩) (List.nodup_cons.mpr ⟨hn, hd⟩) (by simp; omega)

-- The search from all nodes that have successors fails exactly if there is a cycle.
theorem visitAll_isOk_iff (hk : ∀ a, succ a ≠ [] → a ∈ keys) (hf : keys.length < fuel) :
    (∃ visited, visitAll succ fuel [] [] keys = .ok visited) ↔ ¬Cyclic succ := by
  constructor
  case mp =>
    intro ⟨visited, h⟩ ⟨a, hc⟩
    have he := visitAll_ok visit_ok .nil h
    have ⟨b, hb, _⟩ := Relation.TransGen.head'_iff.mp hc
    exact he.explored.acyclic (he.nodes (hk a (List.ne_nil_of_mem hb))) hc
  case mpr =>
    intro hc
    cases h : visitAll succ fuel [] [] keys with
    | ok visited => exact ⟨visited, rfl⟩
    | error e    =>
      cases e with
      | cycle a => exact absurd h <| visitAll_error fun _ _ _ => visit_cycle nofun hc
      | depth   =>
        refine absurd h <| visitAll_error fun _ _ _ => ?_
        exact visit_depth hk (List.nil_subset _) List.nodup_nil (by simpa using hf)

end DepthFirst
