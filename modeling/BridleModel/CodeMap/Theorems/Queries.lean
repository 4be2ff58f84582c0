import BridleModel.CodeMap.Queries
import BridleModel.CodeMap.Theorems.Artifacts

open Except Neighbourhood

namespace CodeMap

section Neighbours

variable {order : Order} {db : Db} {map : Artifacts} {a b : String}

theorem mem_list {l : List String} : b ∈ order.list l ↔ b ∈ l :=
  (order.perm l).mem_iff

theorem list_nil : order.list [] = [] :=
  (order.perm []).eq_nil

-- A child that is not archived and its parent, or the ends of a stored edge
def Db.Linked (db : Db) (a b : String) : Prop :=
  (∃ row ∈ db.nodes, ¬row.archived ∧ (row.parentId = some a ∧ row.id = b ∨ row.parentId = some b ∧ row.id = a)) ∨
    ∃ edge ∈ db.edges, edge.sourceId = a ∧ edge.targetId = b ∨ edge.sourceId = b ∧ edge.targetId = a

def Artifacts.Linked (map : Artifacts) (a b : String) : Prop :=
  ∃ r ∈ map.relations, r.sourceId = a ∧ r.targetId = b ∨ r.sourceId = b ∧ r.targetId = a

theorem mem_planNeighbours : b ∈ db.neighbours order a ↔ db.Linked a b := by
  rw [Db.neighbours, mem_list, List.mem_dedup]
  simp only [List.mem_append, List.mem_map, List.mem_filter, List.mem_filterMap, decide_eq_true_eq, Db.Linked, Table.mem_def]
  constructor
  · rintro (((⟨row, ⟨hr, ha, hp⟩, he⟩ | ⟨row, ⟨hr, ha, hi⟩, hp⟩) | ⟨e, ⟨he, hs⟩, ht⟩) | ⟨e, ⟨he, ht⟩, hs⟩)
    · exact .inl ⟨row, hr, ha, .inl ⟨hp, he⟩⟩
    · exact .inl ⟨row, hr, ha, .inr ⟨hp, hi⟩⟩
    · exact .inr ⟨e, he, .inl ⟨hs, ht⟩⟩
    · exact .inr ⟨e, he, .inr ⟨hs, ht⟩⟩
  · rintro (⟨row, hr, ha, ⟨hp, he⟩ | ⟨hp, hi⟩⟩ | ⟨e, he, ⟨hs, ht⟩ | ⟨hs, ht⟩⟩)
    · exact .inl (.inl (.inl ⟨row, ⟨hr, ha, hp⟩, he⟩))
    · exact .inl (.inl (.inr ⟨row, ⟨hr, ha, hi⟩, hp⟩))
    · exact .inl (.inr ⟨e, ⟨he, hs⟩, ht⟩)
    · exact .inr ⟨e, ⟨he, ht⟩, hs⟩

theorem mem_mapNeighbours : b ∈ map.neighbours order a ↔ map.Linked a b := by
  rw [Artifacts.neighbours, mem_list, List.mem_dedup]
  simp only [List.mem_append, List.mem_map, List.mem_filter, decide_eq_true_eq, Artifacts.Linked, Table.mem_def]
  constructor
  · rintro (⟨r, ⟨hr, hs⟩, ht⟩ | ⟨r, ⟨hr, ht⟩, hs⟩)
    · exact ⟨r, hr, .inl ⟨hs, ht⟩⟩
    · exact ⟨r, hr, .inr ⟨hs, ht⟩⟩
  · rintro ⟨r, hr, ⟨hs, ht⟩ | ⟨hs, ht⟩⟩
    · exact .inl ⟨r, ⟨hr, hs⟩, ht⟩
    · exact .inr ⟨r, ⟨hr, ht⟩, hs⟩

end Neighbours
section Searches

variable {order : Order} {digest : String → String} {db : Db} {map : Artifacts} {seedId : String}

-- What a search has collected: nothing beyond the ball, and all of it unless the answer says that it was cut off.
structure Exact (linked : String → String → Prop) (start : List String) (depth : Nat) (seen : List String)
    (whole : Prop) : Prop where
  near  : ∀ id ∈ seen, id ∈ Ball linked start depth
  ball  : whole → ∀ id ∈ Ball linked start depth, id ∈ seen
  fresh : seen.Nodup

-- `ProjectPlanStore.subgraph`
def PlanExact (order : Order) (db : Db) : Prop :=
  ∀ nodeId depth limit result, db.subgraph order nodeId depth limit = .ok result →
    Exact db.Linked [nodeId] (clamp 0 maxSubgraphDepth depth) (db.subgraphSearch order nodeId depth limit).1
      (result.truncated = false) ∧
    (db.subgraphSearch order nodeId depth limit).1.length ≤ boundedLimit limit

-- `MapQueryService.subgraph`
def MapExact (order : Order) (map : Artifacts) : Prop :=
  ∀ entityId depth maxNodes kinds,
    Exact map.Linked [entityId] (clamp 0 mapQueryDepth depth) (map.subgraphIds order entityId depth maxNodes)
      ((map.subgraph order entityId depth maxNodes kinds).truncated = false) ∧
    (map.subgraphIds order entityId depth maxNodes).length ≤ clamp 1 mapQueryNodes maxNodes

-- The entities of the file of a seed, which are those at its path and its symbols
def Artifacts.ownIds (map : Artifacts) (digest : String → String) (seed : BlindSpotRow) : List String :=
  match seed.filePath with
  | none          => []
  | some filePath => Artifacts.fileEntityId digest filePath :: (map.entities.rows.filter (OfFile filePath ·.path)).map (·.id)

-- `seed_allowed_entity_ids` and what `assert_entity_in_seed_scope` lets through
structure SeedExact (order : Order) (digest : String → String) (map : Artifacts) (seedId : String) : Prop where
  allowed : ∀ seed, map.requireBlindSpotSeed seedId = .ok seed → ∀ maxDepth maxNodes allowed,
              map.seedAllowedEntityIds order digest seedId maxDepth maxNodes = .ok allowed →
              Exact map.Linked (map.ownIds digest seed) (clamp 0 mapQueryDepth maxDepth) allowed
                (allowed.length < maxNodes)
  scope   : ∀ seed, map.requireBlindSpotSeed seedId = .ok seed → ∀ entityId,
              map.assertEntityInSeedScope order digest seedId entityId = .ok () →
              entityId ∈ Ball map.Linked (map.ownIds digest seed) (clamp 0 mapQueryDepth mappingSeedMaxDepth)

-- The seed names a file, and no entity of another file lies at a name that LIKE takes for it.
def SeedNamed (digest : String → String) (map : Artifacts) (seedId : String) : Prop :=
  ∀ seed, map.requireBlindSpotSeed seedId = .ok seed → ∃ filePath, seed.filePath = some filePath ∧
    ∀ e ∈ map.entities, ∀ other, ProjectMap.like other filePath → SymbolOf other e.path →
      OfFile filePath e.path ∨ e.id = Artifacts.fileEntityId digest filePath

theorem step_plan : Step (db.neighbours order) = db.Linked := by
  funext a b
  exact propext mem_planNeighbours

theorem step_map : Step (map.neighbours order) = map.Linked := by
  funext a b
  exact propext mem_mapNeighbours

theorem planExact : PlanExact order db := by
  intro nodeId depth limit result hr
  rw [Db.subgraph] at hr
  split at hr
  case isFalse => cases hr
  case isTrue  =>
    obtain rfl := Except.ok.inj hr
    have hl : 0 < boundedLimit limit := by
      unfold boundedLimit
      omega
    obtain ⟨hb, hq⟩ := @search_from _ (db.neighbours order) _ _ (clamp 0 maxSubgraphDepth depth) nodeId hl
    rw [step_plan] at hb hq
    refine ⟨⟨hb.near, fun hw => ?_, hb.fresh⟩, hb.size hl⟩
    rw [decide_eq_false_iff_not, not_and_or, not_ne_iff, Nat.not_le] at hw
    exact hw.elim hb.whole hq

theorem mapExact : MapExact order map := by
  intro entityId depth maxNodes kinds
  have hl : 0 < clamp 1 mapQueryNodes maxNodes := by
    unfold clamp mapQueryNodes
    omega
  have hb := @levels_bounded _ (map.neighbours order) _ (clamp 1 mapQueryNodes maxNodes) (clamp 0 mapQueryDepth depth)
    order.list [entityId] false order.perm (List.nodup_singleton entityId)
  rw [step_map] at hb
  refine ⟨⟨hb.near, fun hw => hb.whole ?_, hb.fresh⟩, hb.size hl⟩
  exact Nat.lt_of_not_le (of_decide_eq_false hw)

theorem mem_seedStart {seed : BlindSpotRow} {id : String} : id ∈ map.seedStart digest seed ↔
    id = Artifacts.fileEntityId digest (seed.filePath.getD "None") ∨
      ∃ e ∈ map.entities, ProjectMap.inFile (seed.filePath.getD "None") e.path ∧ e.id = id := by
  simp [Artifacts.seedStart, Table.mem_def, and_assoc]

theorem mem_ownIds {seed : BlindSpotRow} {filePath id : String} (h : seed.filePath = some filePath) :
    id ∈ map.ownIds digest seed ↔
      id = Artifacts.fileEntityId digest filePath ∨ ∃ e ∈ map.entities, OfFile filePath e.path ∧ e.id = id := by
  simp [Artifacts.ownIds, h, Table.mem_def, and_assoc]

theorem seedStart_eq {seed : BlindSpotRow} (h : map.requireBlindSpotSeed seedId = .ok seed)
    (hn : SeedNamed digest map seedId) : ∀ id, id ∈ map.seedStart digest seed ↔ id ∈ map.ownIds digest seed := by
  obtain ⟨filePath, hf, hn⟩ := hn seed h
  intro id
  rw [mem_seedStart, mem_ownIds hf, hf, Option.getD_some]
  constructor
  · rintro (hid | ⟨e, he, hp, hid⟩)
    · exact .inl hid
    · cases inFile_iff.mp hp with
      | inl hp => exact .inr ⟨e, he, .inl hp, hid⟩
      | inr ho =>
        obtain ⟨other, ho, hs⟩ := ho
        cases hn e he other ho hs with
        | inl hp => exact .inr ⟨e, he, hp, hid⟩
        | inr hp => exact .inl (hid.symm.trans hp)
  · rintro (hid | ⟨e, he, hp, hid⟩)
    · exact .inl hid
    · exact .inr ⟨e, he, hp.inFile, hid⟩

theorem seedAllowed_ok {seed : BlindSpotRow} (h : map.requireBlindSpotSeed seedId = .ok seed) {maxDepth maxNodes : Int} :
    map.seedAllowedEntityIds order digest seedId maxDepth maxNodes =
      .ok (levels (map.neighbours order) order.list true maxNodes.toNat (clamp 0 mapQueryDepth maxDepth)
        (map.seedStart digest seed) (map.seedStart digest seed)) := by
  rw [Artifacts.seedAllowedEntityIds, h]
  rfl

theorem SeedNamed.allowed {seed : BlindSpotRow} (hn : SeedNamed digest map seedId)
    (h : map.requireBlindSpotSeed seedId = .ok seed) {maxDepth maxNodes : Int} {allowed : List String}
    (ha : map.seedAllowedEntityIds order digest seedId maxDepth maxNodes = .ok allowed) :
    Exact map.Linked (map.ownIds digest seed) (clamp 0 mapQueryDepth maxDepth) allowed (allowed.length < maxNodes) := by
  rw [seedAllowed_ok h] at ha
  obtain rfl := Except.ok.inj ha
  have hb := @levels_bounded _ (map.neighbours order) _ maxNodes.toNat (clamp 0 mapQueryDepth maxDepth) order.list
    (map.seedStart digest seed) true order.perm (List.nodup_dedup _)
  rw [step_map] at hb
  have he : ∀ n, Ball map.Linked (map.seedStart digest seed) n = Ball map.Linked (map.ownIds digest seed) n :=
    fun n => ball_congr (seedStart_eq h hn)
  exact ⟨fun id hid => he _ ▸ hb.near id hid, fun hw id hid => hb.whole (by omega) id (he _ ▸ hid), hb.fresh⟩

theorem SeedNamed.exact (hn : SeedNamed digest map seedId) : SeedExact order digest map seedId where
  allowed _ h _ _ _ ha := hn.allowed h ha
  scope seed h entityId hs := by
    rw [Artifacts.assertEntityInSeedScope, Except.bind_eq_ok_iff] at hs
    obtain ⟨allowed, ha, hm⟩ := hs
    rw [raiseIf_eq_ok_iff, not_not] at hm
    exact (hn.allowed h ha).near entityId hm

-- With no steps the search collects what it starts with.
theorem SeedExact.named (hx : SeedExact order digest map seedId) : SeedNamed digest map seedId := by
  intro seed h
  have near : ∀ id ∈ map.seedStart digest seed, id ∈ map.ownIds digest seed := by
    intro id hid
    have ha := @seedAllowed_ok order digest map seedId seed h 0 0
    exact mem_ball_zero.mp ((hx.allowed seed h 0 0 _ ha).near id hid)
  cases hf : seed.filePath with
  | none          =>
    have hm := near _ (mem_seedStart.mpr (.inl rfl))
    rw [Artifacts.ownIds, hf] at hm
    exact absurd hm List.not_mem_nil
  | some filePath =>
    refine ⟨filePath, rfl, fun e he other ho hs => ?_⟩
    have hm : e.id ∈ map.seedStart digest seed := by
      rw [mem_seedStart, hf]
      exact .inr ⟨e, he, inFile_iff.mpr (.inr ⟨other, ho, hs⟩), rfl⟩
    cases (mem_ownIds hf).mp (near _ hm) with
    | inl hid => exact .inr hid
    | inr hid =>
      obtain ⟨o, ho, hp, hid⟩ := hid
      obtain rfl := map.entities.eq_of_mem_keys ho he (k := .id e.id) (by simp [hid]) (by simp)
      exact .inl hp

-- The neighbourhoods are exact exactly when the seed takes in no other file.
theorem neighbourhoods_exact_iff : PlanExact order db ∧ MapExact order map ∧ SeedExact order digest map seedId ↔
    SeedNamed digest map seedId :=
  ⟨fun h => h.2.2.named, fun h => ⟨planExact, mapExact, h.exact⟩⟩

-- The blind spot of a file beside one with a similar name
def seeded : Artifacts :=
  { similarNames with
    blindSpots := ([⟨"spot-1", "dynamic_import", some "src/a_b.py", none, [], some "static", "open"⟩].foldlM
      Table.insert? .empty).getD .empty
  }

theorem not_neighbourhoods_exact : ¬∀ (order : Order) (digest : String → String) (db : Db) (map : Artifacts) (seedId : String),
    PlanExact order db ∧ MapExact order map ∧ SeedExact order digest map seedId := by
  intro h
  have hn := (h ⟨id, fun _ => .refl _⟩ id ⟨.empty, .empty, .empty, .empty, .empty, by simp, by simp⟩ seeded "spot-1").2.2.named
  obtain ⟨filePath, hf, hn⟩ := hn _ rfl
  obtain rfl : "src/a_b.py" = filePath := Option.some.inj hf
  have hs := hn sibling sibling_mem "src/axb.py" (by decide +kernel) (by decide +kernel)
  exact absurd hs (by decide +kernel)
end Searches
end CodeMap
