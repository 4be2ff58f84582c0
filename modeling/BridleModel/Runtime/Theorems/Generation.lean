import Mathlib.Data.Option.Basic
import BridleModel.Runtime.Generation

namespace Runtime

section Agents

variable {projectId sessionId messageId x : String}

theorem mapAgentId_inj : mapAgentId projectId = mapAgentId x ↔ projectId = x :=
  String.append_right_inj _

theorem sessionAgentId_inj : sessionAgentId sessionId = sessionAgentId x ↔ sessionId = x :=
  String.append_right_inj _

theorem childAgentId_inj : childAgentId messageId = childAgentId x ↔ messageId = x :=
  String.append_right_inj _

theorem ne_of_head {a b : String} (h : a.toList.head? ≠ b.toList.head?) : a ≠ b :=
  fun he => h (he ▸ rfl)

theorem map_ne_session : mapAgentId projectId ≠ sessionAgentId sessionId :=
  ne_of_head (by simp [mapAgentId, sessionAgentId])

theorem map_ne_child : mapAgentId projectId ≠ childAgentId messageId :=
  ne_of_head (by simp [mapAgentId, childAgentId])

theorem session_ne_child : sessionAgentId sessionId ≠ childAgentId messageId :=
  ne_of_head (by simp [sessionAgentId, childAgentId])

end Agents

-- What is taken from memory must not be older than the database: a map of the project was started by this
-- process or never, a session is not closed under its turn, and no child has run for the node.
def Admitted (w : World) : Action → Prop
  | .wake projectId ..               => (Assoc.get w.memory.generations projectId).isSome ∨
    ∀ row ∈ w.runtimes, row.agentId ≠ mapAgentId projectId
  | .closeSession sessionId ..       => Assoc.get w.memory.turns sessionId = none
  | .dispatchChild sessionId nodeId .. =>
    ∀ session ∈ w.sessions, session.id = sessionId → ∀ spawn ∈ w.spawnOf session.projectId nodeId,
      ∀ row ∈ w.runtimes, row.agentId ≠ childAgentId spawn.messageId
  | _ => True

instance (w : World) : ∀ a, Decidable (Admitted w a)
  | .wake ..          => inferInstanceAs (Decidable (_ ∨ _))
  | .closeSession ..  => inferInstanceAs (Decidable (_ = _))
  | .dispatchChild .. =>
    inferInstanceAs (Decidable (∀ session ∈ w.sessions, _ → ∀ spawn ∈ w.spawnOf _ _, ∀ row ∈ w.runtimes, _))
  | .createSession .. | .beginTurn .. | .ensureParent .. | .endTurn .. | .retire .. | .restart =>
    inferInstanceAs (Decidable True)

structure Inv (w : World) : Prop where
  maps     : ∀ projectId generation, Assoc.get w.memory.generations projectId = some generation →
    ∀ row ∈ w.runtimes, row.agentId = mapAgentId projectId → row.generation ≤ generation
  parents  : ∀ row ∈ w.runtimes, ∀ sessionId, row.agentId = sessionAgentId sessionId →
    row.runtimeType = .parent ∧ row.sessionId = some sessionId ∧
      ∃ session ∈ w.sessions, session.id = sessionId ∧ session.projectId = row.projectId
  turns    : ∀ sessionId generation, Assoc.get w.memory.turns sessionId = some generation →
    ∃ session ∈ w.sessions, session.id = sessionId ∧
      ((Assoc.get w.memory.parents (session.projectId, sessionId)).isSome ∨
        ∀ row ∈ w.runtimes, row.agentId = sessionAgentId sessionId → row.generation < generation)
  children : ∀ row ∈ w.runtimes, ∀ messageId, row.agentId = childAgentId messageId →
    ∃ spawn ∈ w.spawns, spawn.messageId = messageId

-- The record that an action asks for
inductive Asks (w : World) : Action → RuntimeRow → Prop
  | map {projectId : String} {running destroyed cleared ready : Bool} (agent : row.agentId = mapAgentId projectId)
      (counted : Assoc.get w.memory.generations projectId = some row.generation)
      (newest : ∀ r ∈ w.runtimes, r.agentId = row.agentId → r.generation < row.generation) :
      Asks w (.wake projectId running destroyed cleared ready) row
  | parent {sessionId : String} {ready : Bool} (agent : row.agentId = sessionAgentId sessionId) (type : row.runtimeType = .parent)
      (session : row.sessionId = some sessionId)
      (owner : ∃ session ∈ w.sessions, session.id = sessionId ∧ session.projectId = row.projectId)
      (newest : ∀ r ∈ w.runtimes, r.agentId = row.agentId → r.generation < row.generation) :
      Asks w (.ensureParent sessionId ready) row
  | child {sessionId messageId nodeId uuid : String} {admitted : Bool}
      (agent : row.agentId = childAgentId messageId) (first : ∀ r ∈ w.runtimes, r.agentId ≠ row.agentId)
      (spawned : ∃ spawn ∈ w.spawns, spawn.messageId = messageId) :
      Asks w (.dispatchChild sessionId nodeId uuid admitted) row

variable {w w' : World} {a : Action} {row : RuntimeRow} {ask : Option RuntimeRow}

theorem Asks.fresh (h : Asks w a row) :
    ∀ r ∈ w.runtimes, (r.agentId, r.generation) ≠ (row.agentId, row.generation) := by
  intro r hr he
  obtain ⟨ha, hg⟩ := Prod.mk.inj he
  cases h with
  | map _ _ newest        => exact absurd hg (newest r hr ha).ne
  | parent _ _ _ _ newest => exact absurd hg (newest r hr ha).ne
  | child _ first _       => exact first r hr ha

theorem Asks.created (h : Asks w a row) : ∃ w', w.createRecord row = some w' := by
  have hf : ∀ r ∈ w.runtimes.rows, ∀ k ∈ [(r.agentId, r.generation)], k ∉ [(row.agentId, row.generation)] := by
    intro r hr k hk hk'
    rw [List.mem_singleton] at hk hk'
    exact h.fresh r hr (hk.symm.trans hk')
  exact ⟨_, by rw [World.createRecord, Table.insert?, dif_pos hf]; rfl⟩

theorem session_eq {s s' : SessionRow} (hs : s ∈ w.sessions) (hs' : s' ∈ w.sessions) (he : s.id = s'.id) :
    s = s' :=
  Table.eq_of_mem_keys hs hs' (List.mem_singleton_self _) (List.mem_singleton.mpr he)

theorem lookup_session {id : String} {session : SessionRow} (h : w.sessions.lookup id = some session) :
    session ∈ w.sessions ∧ id = session.id := by
  obtain ⟨hm, hk⟩ := Table.lookup_eq_some_iff.mp h
  exact ⟨hm, List.mem_singleton.mp hk⟩

theorem lt_parentGeneration {session : SessionRow} (hi : Inv w) (hs : session ∈ w.sessions)
    (hn : Assoc.get w.memory.parents (session.projectId, session.id) = none) (hr : row ∈ w.runtimes)
    (ha : row.agentId = sessionAgentId session.id) :
    row.generation < w.parentGeneration session.projectId session.id := by
  obtain ⟨ht, hsession, owner, ho, hid, hp⟩ := hi.parents row hr session.id ha
  have he := session_eq ho hs hid
  subst he
  have hm : row ∈ w.runtimes.rows.filter fun r =>
      r.runtimeType = .parent ∧ r.projectId = owner.projectId ∧ r.sessionId = some owner.id :=
    List.mem_filter.mpr ⟨hr, decide_eq_true ⟨ht, hp.symm, hsession⟩⟩
  rw [World.parentGeneration, hn]
  exact Nat.lt_succ_of_le (List.le_max?_getD_of_mem (List.mem_map_of_mem hm))

-- The databases grow, and no session in a turn loses its parent.
theorem Inv.mono (hi : Inv w) (hr : w'.runtimes = w.runtimes)
    (hs : ∀ session ∈ w.sessions, ∃ s ∈ w'.sessions, s.id = session.id ∧ s.projectId = session.projectId)
    (hc : ∀ spawn ∈ w.spawns, spawn ∈ w'.spawns)
    (hg : ∀ projectId generation, Assoc.get w'.memory.generations projectId = some generation →
      Assoc.get w.memory.generations projectId = some generation)
    (ht : ∀ sessionId generation, Assoc.get w'.memory.turns sessionId = some generation →
      Assoc.get w.memory.turns sessionId = some generation ∧
        ∀ projectId, Assoc.get w'.memory.parents (projectId, sessionId) =
          Assoc.get w.memory.parents (projectId, sessionId)) : Inv w' where
  maps projectId generation h := by
    rw [hr]
    exact hi.maps projectId generation (hg projectId generation h)
  parents row hrow sessionId ha := by
    rw [hr] at hrow
    obtain ⟨htype, hsession, session, hm, hid, hp⟩ := hi.parents row hrow sessionId ha
    obtain ⟨s, hm', hid', hp'⟩ := hs session hm
    exact ⟨htype, hsession, s, hm', hid'.trans hid, hp'.trans hp⟩
  turns sessionId generation h := by
    rw [hr]
    obtain ⟨h, hparent⟩ := ht sessionId generation h
    obtain ⟨session, hm, hid, hor⟩ := hi.turns sessionId generation h
    obtain ⟨s, hm', hid', hp'⟩ := hs session hm
    refine ⟨s, hm', hid'.trans hid, ?_⟩
    rwa [hparent, hp']
  children row hrow messageId ha := by
    rw [hr] at hrow
    obtain ⟨spawn, hm, he⟩ := hi.children row hrow messageId ha
    exact ⟨spawn, hc spawn hm, he⟩

theorem sessions_mono (h : ∀ session ∈ w.sessions, session ∈ w'.sessions) :
    ∀ session ∈ w.sessions, ∃ s ∈ w'.sessions, s.id = session.id ∧ s.projectId = session.projectId :=
  fun session hs => ⟨session, h session hs, rfl, rfl⟩

theorem createSession_inv {id projectId : String} {sessions : Table SessionRow fun row => [row.id]}
    (hi : Inv w) (h : w.sessions.insert? { id, projectId, active := true } = some sessions) :
    Inv { w with sessions } :=
  hi.mono rfl (sessions_mono fun _ hs => (Table.mem_insert? h).mpr (Or.inl hs)) (fun _ hc => hc)
    (fun _ _ hg => hg) (fun _ _ ht => ⟨ht, fun _ => rfl⟩)

theorem closeParents_inv {session : SessionRow} (hi : Inv w)
    (ha : Assoc.get w.memory.turns session.id = none) :
    Inv (w.withMemory (World.dropParent (session.projectId, session.id))) := by
  refine hi.mono rfl (sessions_mono fun _ hs => hs) (fun _ hc => hc) (fun _ _ hg => hg) fun sessionId _ ht => ?_
  refine ⟨ht, fun projectId => ?_⟩
  have hn : sessionId ≠ session.id := by
    rintro rfl
    cases ha.symm.trans ht
  rw [World.withMemory, World.dropParent, Assoc.get_filter, if_neg fun he => hn (Prod.mk.inj he).right]

theorem closeSession_inv {sessionId : String} (hi : Inv w) : Inv (w.closeSession sessionId) := by
  refine hi.mono rfl (fun session hs => ?_) (fun _ hc => hc) (fun _ _ hg => hg)
    (fun _ _ ht => ⟨ht, fun _ => rfl⟩)
  have hm := @Table.modify_mem _ _ _ w.sessions session (·.id = sessionId)
    (fun row => { row with active := false }) (Table.keep fun _ => rfl) hs
  refine ⟨_, hm, ?_⟩
  by_cases h : session.id = sessionId <;> simp [h]

theorem beginTurn_inv {session : SessionRow} (hi : Inv w) (hs : session ∈ w.sessions) :
    Inv (w.withMemory
      (World.beginTurn session.id (w.parentGeneration session.projectId session.id))) where
  maps     := hi.maps
  parents  := hi.parents
  children := hi.children
  turns sessionId generation h := by
    rw [World.withMemory, World.beginTurn, Assoc.get_set] at h
    split at h
    case isFalse    => exact hi.turns sessionId generation h
    case isTrue he =>
      cases h
      subst he
      refine ⟨session, hs, rfl, ?_⟩
      cases hp : Assoc.get w.memory.parents (session.projectId, session.id) with
      | some g => exact Or.inl (congrArg Option.isSome hp)
      | none   => exact Or.inr fun row hr ha => lt_parentGeneration hi hs hp hr ha

theorem endTurn_inv {sessionId : String} (hi : Inv w) : Inv (w.withMemory (World.endTurn sessionId)) := by
  refine hi.mono rfl (sessions_mono fun _ hs => hs) (fun _ hc => hc) (fun _ _ hg => hg) fun s _ ht => ?_
  rw [World.withMemory, World.endTurn, Assoc.get_filter] at ht
  split at ht
  case isTrue  => cases ht
  case isFalse => exact ⟨ht, fun _ => rfl⟩

theorem ensureParent_asks {session : SessionRow} {generation : Nat} {ready : Bool} (hi : Inv w)
    (hs : session ∈ w.sessions) (hg : Assoc.get w.memory.turns session.id = some generation)
    (hn : Assoc.get w.memory.parents (session.projectId, session.id) = none) :
    Asks w (.ensureParent session.id ready) {
      runtimeType := .parent, projectId := session.projectId, sessionId := some session.id
      agentId := sessionAgentId session.id, generation } := by
  refine .parent rfl rfl rfl ⟨session, hs, rfl, rfl⟩ fun r hr ha => ?_
  obtain ⟨owner, ho, hid, hor⟩ := hi.turns session.id generation hg
  have he := session_eq ho hs hid
  subst he
  cases hor with
  | inl hp => simp [hn] at hp
  | inr hl => exact hl r hr ha

-- A node has its first spawn or gets a new one.
theorem storeSpawn_cases {projectId nodeId uuid messageId : String}
    (hf : ∀ spawn ∈ w.spawns.rows, spawn.messageId ≠ "spawn-" ++ uuid)
    (h : w.storeSpawn projectId nodeId uuid = (w', messageId)) :
    (∃ spawn, w.spawnOf projectId nodeId = some spawn ∧ w' = w ∧ messageId = spawn.messageId) ∨
    ∃ spawn spawns, w.spawns.insert? spawn = some spawns ∧ w' = { w with spawns } ∧
      spawn.messageId = messageId ∧ messageId = "spawn-" ++ uuid := by
  rw [World.storeSpawn] at h
  cases hs : w.spawnOf projectId nodeId with
  | some spawn =>
    rw [hs] at h
    cases h
    exact Or.inl ⟨spawn, rfl, rfl, rfl⟩
  | none       =>
    rw [hs] at h
    have hn : ∀ k ∈ SpawnRow.keys { projectId, messageId := "spawn-" ++ uuid, nodeId },
        w.spawns.lookup k = none := by
      intro k hk
      cases List.mem_pair.mp hk with
      | inr hk => exact hk ▸ hs
      | inl hk =>
        refine Table.lookup_eq_none_iff.mpr fun spawn hm hkey => hf spawn hm ?_
        simp only [hk, SpawnRow.keys, List.mem_pair, SpawnKey.message.injEq, reduceCtorEq, or_false] at hkey
        exact hkey.right.symm
    obtain ⟨spawns, hi⟩ := Table.insert?_isSome hn
    dsimp only at h
    rw [hi] at h
    cases h
    exact Or.inr ⟨_, spawns, hi, rfl, rfl, rfl⟩

theorem dispatchChild_inv {session : SessionRow} {nodeId uuid messageId : String} {admitted : Bool}
    (hi : Inv w) (hs : session ∈ w.sessions)
    (ha : Admitted w (.dispatchChild session.id nodeId uuid admitted))
    (hf : ∀ spawn ∈ w.spawns.rows, spawn.messageId ≠ "spawn-" ++ uuid)
    (h : w.storeSpawn session.projectId nodeId uuid = (w', messageId)) :
    Inv w' ∧ Asks w' (.dispatchChild session.id nodeId uuid admitted) {
      runtimeType := .child, projectId := session.projectId, sessionId := some session.id
      agentId := childAgentId messageId, generation := 1 } := by
  cases storeSpawn_cases hf h with
  | inl h =>
    obtain ⟨spawn, hspawn, rfl, rfl⟩ := h
    have hm := Table.lookup_mem hspawn
    exact ⟨hi, .child rfl (ha session hs rfl spawn hspawn) ⟨spawn, hm, rfl⟩⟩
  | inr h =>
    obtain ⟨spawn, spawns, hins, rfl, rfl, hu⟩ := h
    refine ⟨?_, .child rfl (fun r hr he => ?_) ⟨spawn, (Table.mem_insert? hins).mpr (Or.inr rfl), rfl⟩⟩
    · exact hi.mono rfl (sessions_mono fun _ hs => hs) (fun _ hc => (Table.mem_insert? hins).mpr (Or.inl hc))
        (fun _ _ hg => hg) (fun _ _ ht => ⟨ht, fun _ => rfl⟩)
    · obtain ⟨old, hold, heq⟩ := hi.children r hr _ he
      exact hf old hold (heq.trans hu)

theorem wakeMap_inv {projectId : String} {running destroyed cleared ready : Bool} (hi : Inv w)
    (ha : Admitted w (.wake projectId running destroyed cleared ready))
    (h : w.wakeMap projectId running destroyed cleared = (w', ask)) :
    Inv w' ∧ ∀ row ∈ ask, Asks w' (.wake projectId running destroyed cleared ready) row := by
  have hmem (m : Memory) (hg : m.generations = w.memory.generations) (hp : m.parents = w.memory.parents)
      (ht : m.turns = w.memory.turns) : Inv { w with memory := m } :=
    hi.mono rfl (sessions_mono fun _ hs => hs) (fun _ hc => hc) (fun _ _ h => hg ▸ h)
      (fun _ _ h => ⟨ht ▸ h, fun _ => congrArg (Assoc.get · _) hp⟩)
  unfold World.wakeMap at h
  dsimp only at h
  split at h
  case isTrue => cases h; exact ⟨hi, by simp⟩
  split at h
  case isTrue => cases h; exact ⟨hmem _ rfl rfl rfl, by simp⟩
  have hcount : ∀ row ∈ w.runtimes, row.agentId = mapAgentId projectId →
      row.generation < (Assoc.get w.memory.generations projectId).getD 0 + 1 := by
    intro row hr he
    cases hg : Assoc.get w.memory.generations projectId with
    | some g => exact Nat.lt_succ_of_le (hi.maps projectId g hg row hr he)
    | none   =>
      cases ha with
      | inl hs => simp [hg] at hs
      | inr hn => exact absurd he (hn row hr)
  have hinv (agents : List String) : Inv { w with memory := { w.memory with
      agents
      generations := Assoc.set w.memory.generations projectId
        ((Assoc.get w.memory.generations projectId).getD 0 + 1) } } := {
    parents  := hi.parents
    turns    := hi.turns
    children := hi.children
    maps     := fun p g hg row hr he => by
      rw [Assoc.get_set] at hg
      split at hg
      case isFalse   => exact hi.maps p g hg row hr he
      case isTrue hp =>
        cases hg
        exact (hcount row hr (hp ▸ he)).le }
  split at h
  case isTrue  => cases h; exact ⟨hinv _, by simp⟩
  case isFalse =>
    cases h
    refine ⟨hinv _, fun row hrow => ?_⟩
    cases hrow
    exact .map rfl (by simp [Assoc.get_set]) hcount

theorem prepare_inv (hi : Inv w) (ha : Admitted w a) (h : w.prepare a = some (w', ask)) :
    Inv w' ∧ ∀ row ∈ ask, Asks w' a row := by
  cases a with
  | createSession id projectId =>
    obtain ⟨sessions, hins, h⟩ := Option.bind_eq_some_iff.mp h
    cases h
    exact ⟨createSession_inv hi hins, by simp⟩
  | closeSession sessionId destroyed closed =>
    obtain ⟨session, hl, h⟩ := Option.bind_eq_some_iff.mp h
    obtain ⟨hs, rfl⟩ := lookup_session hl
    have hp : Inv (if destroyed then w.withMemory (World.dropParent (session.projectId, session.id))
        else w) := by
      split
      case isTrue  => exact closeParents_inv hi ha
      case isFalse => exact hi
    cases h
    refine ⟨?_, by simp⟩
    split
    case isTrue  => exact closeSession_inv hp
    case isFalse => exact hp
  | beginTurn sessionId =>
    obtain ⟨session, hl, h⟩ := Option.bind_eq_some_iff.mp h
    obtain ⟨-, -, h⟩ := Option.bind_eq_some_iff.mp h
    obtain ⟨hs, rfl⟩ := lookup_session hl
    cases h
    exact ⟨beginTurn_inv hi hs, by simp⟩
  | ensureParent sessionId ready =>
    obtain ⟨session, hl, h⟩ := Option.bind_eq_some_iff.mp h
    obtain ⟨generation, hg, h⟩ := Option.bind_eq_some_iff.mp h
    obtain ⟨hs, rfl⟩ := lookup_session hl
    split at h
    case isTrue     => cases h; exact ⟨hi, by simp⟩
    case isFalse hp =>
      cases h
      refine ⟨hi, fun row hrow => ?_⟩
      cases hrow
      exact ensureParent_asks hi hs hg (by simpa using hp)
  | endTurn sessionId =>
    cases h
    exact ⟨endTurn_inv hi, by simp⟩
  | dispatchChild sessionId nodeId uuid admitted =>
    obtain ⟨session, hl, h⟩ := Option.bind_eq_some_iff.mp h
    obtain ⟨_, hf, h⟩ := Option.bind_eq_some_iff.mp h
    obtain ⟨hs, rfl⟩ := lookup_session hl
    cases hsp : w.storeSpawn session.projectId nodeId uuid with
    | mk w₁ messageId =>
      obtain ⟨hi₁, ha₁⟩ := dispatchChild_inv hi hs ha ((Option.guard_eq_some' _).mp hf) hsp
      rw [hsp] at h
      dsimp only at h
      split at h
      case isFalse => cases h; exact ⟨hi₁, by simp⟩
      case isTrue  =>
        cases h
        refine ⟨hi₁, fun row hrow => ?_⟩
        cases hrow
        exact ha₁
  | wake projectId running destroyed cleared ready => exact wakeMap_inv hi ha (Option.some.inj h)
  | retire projectId =>
    cases h
    refine ⟨hi.mono rfl (sessions_mono fun _ hs => hs) (fun _ hc => hc) (fun _ _ hg => hg) ?_, by simp⟩
    exact fun _ _ ht => ⟨ht, fun _ => rfl⟩
  | restart =>
    cases h
    refine ⟨hi.mono rfl (sessions_mono fun _ hs => hs) (fun _ hc => hc) (fun _ _ hg => ?_) ?_, by simp⟩
    · cases hg
    · intro _ _ ht
      cases ht

theorem createRecord_mem (h : w.createRecord row = some w') :
    (∀ r ∈ w'.runtimes, r ∈ w.runtimes ∨ r = row) ∧ ∃ runtimes, w' = { w with runtimes } := by
  obtain ⟨runtimes, hins, rfl⟩ := Option.map_eq_some_iff.mp h
  exact ⟨fun r hr => (Table.mem_insert? hins).mp hr, runtimes, rfl⟩

-- A turn of the session whose parent is recorded finds its handle afterwards.
theorem Inv.insert {runtimes : Table RuntimeRow fun row => [(row.agentId, row.generation)]} {m : Memory}
    (hi : Inv w) (hr : ∀ r ∈ runtimes, r ∈ w.runtimes ∨ r = row)
    (hg : m.generations = w.memory.generations)
    (hmap : ∀ projectId generation, row.agentId = mapAgentId projectId →
      Assoc.get w.memory.generations projectId = some generation → row.generation ≤ generation)
    (hparent : ∀ sessionId, row.agentId = sessionAgentId sessionId →
      row.runtimeType = .parent ∧ row.sessionId = some sessionId ∧
        ∃ session ∈ w.sessions, session.id = sessionId ∧ session.projectId = row.projectId)
    (ht : ∀ sessionId generation, Assoc.get m.turns sessionId = some generation →
      Assoc.get w.memory.turns sessionId = some generation ∧ ∀ projectId,
        (Assoc.get w.memory.parents (projectId, sessionId)).isSome ∨
            row.agentId = sessionAgentId sessionId ∧ row.projectId = projectId →
          (Assoc.get m.parents (projectId, sessionId)).isSome)
    (hchild : ∀ messageId, row.agentId = childAgentId messageId →
      ∃ spawn ∈ w.spawns, spawn.messageId = messageId) :
    Inv { w with runtimes, memory := m } where
  maps projectId generation h r hrow ha := by
    rw [hg] at h
    cases hr r hrow with
    | inl hrow => exact hi.maps projectId generation h r hrow ha
    | inr he   =>
      subst he
      exact hmap projectId generation ha h
  parents r hrow sessionId ha := by
    cases hr r hrow with
    | inl hrow => exact hi.parents r hrow sessionId ha
    | inr he   =>
      subst he
      exact hparent sessionId ha
  turns sessionId generation h := by
    obtain ⟨hold, hsome⟩ := ht sessionId generation h
    obtain ⟨session, hs, hid, hor⟩ := hi.turns sessionId generation hold
    refine ⟨session, hs, hid, ?_⟩
    cases hor with
    | inl hp => exact Or.inl (hsome _ (Or.inl hp))
    | inr hn =>
      by_cases ha : row.agentId = sessionAgentId sessionId
      case pos =>
        obtain ⟨-, -, owner, ho, hoid, hp⟩ := hparent sessionId ha
        have he := session_eq ho hs (hoid.trans hid.symm)
        exact Or.inl (hsome _ (Or.inr ⟨ha, he ▸ hp.symm⟩))
      case neg =>
        refine Or.inr fun r hrow hra => ?_
        cases hr r hrow with
        | inl hrow => exact hn r hrow hra
        | inr he   => exact absurd (he ▸ hra) ha
  children r hrow messageId ha := by
    cases hr r hrow with
    | inl hrow => exact hi.children r hrow messageId ha
    | inr he   =>
      subst he
      exact hchild messageId ha

theorem created_inv (hi : Inv w) (ha : Asks w a row) (h : w.createRecord row = some w') :
    Inv (w'.withMemory (World.created row a)) := by
  obtain ⟨hr, runtimes, rfl⟩ := createRecord_mem h
  cases ha with
  | @map row projectId _ _ _ ready agent counted newest =>
    refine hi.insert hr ?_ (fun p g hp hg => ?_) (fun s hs => ?_) (fun s g hg => ?_) (fun m hm => ?_)
    · cases ready <;> rfl
    · obtain rfl := mapAgentId_inj.mp (agent.symm.trans hp)
      exact (Option.some.inj (counted.symm.trans hg)).le
    · exact absurd (agent.symm.trans hs) map_ne_session
    · have ht : Assoc.get w.memory.turns s = some g := by cases ready <;> exact hg
      refine ⟨ht, fun p hp => ?_⟩
      have hp : (Assoc.get w.memory.parents (p, s)).isSome :=
        hp.resolve_right fun he => absurd (agent.symm.trans he.left) map_ne_session
      cases ready <;> exact hp
    · exact absurd (agent.symm.trans hm) map_ne_child
  | @parent row sessionId ready agent type session owner newest =>
    have hne {m : String} : row.agentId ≠ childAgentId m := fun hm =>
      session_ne_child (agent.symm.trans hm)
    refine hi.insert hr ?_ (fun p g hp hg => ?_) (fun s hs => ?_) (fun s g hg => ?_) (fun m hm => absurd hm hne)
    · cases ready <;> rfl
    · exact absurd (hp.symm.trans agent) map_ne_session
    · obtain rfl := sessionAgentId_inj.mp (agent.symm.trans hs)
      exact ⟨type, session, owner⟩
    · cases ready with
      | true  =>
        refine ⟨hg, fun p hp => ?_⟩
        rw [World.created, if_pos rfl, Assoc.get_set]
        split
        case isTrue      => rfl
        case isFalse hne =>
          refine hp.resolve_right fun he => hne ?_
          rw [he.right, sessionAgentId_inj.mp (he.left.symm.trans agent)]
      | false =>
        rw [World.created, if_neg Bool.false_ne_true, World.endTurn, Assoc.get_filter] at hg
        split at hg
        case isTrue      => cases hg
        case isFalse hne =>
          refine ⟨hg, fun p hp => hp.resolve_right fun he => hne ?_⟩
          exact sessionAgentId_inj.mp (he.left.symm.trans agent)
  | @child row _ messageId _ _ _ agent first spawned =>
    refine hi.insert hr rfl (fun p g hp _ => ?_) (fun s hs => ?_) (fun s g hg => ?_) (fun m hm => ?_)
    · exact absurd (hp.symm.trans agent) map_ne_child
    · exact absurd (hs.symm.trans agent) session_ne_child
    · exact ⟨hg, fun p hp => hp.resolve_right fun he => session_ne_child (he.left.symm.trans agent)⟩
    · obtain rfl := childAgentId_inj.mp (agent.symm.trans hm)
      exact spawned

theorem step_inv (hi : Inv w) (ha : Admitted w a) (h : w.step a = some w') : Inv w' := by
  obtain ⟨p, hp, hs⟩ := Option.bind_eq_some_iff.mp h
  cases p with
  | mk w₁ ask =>
    obtain ⟨hi₁, hask⟩ := prepare_inv hi ha hp
    cases ask with
    | none     => exact Option.some.inj hs ▸ hi₁
    | some row =>
      obtain ⟨w₂, hc⟩ := (hask row rfl).created
      dsimp only at hs
      rw [hc] at hs
      exact Option.some.inj hs ▸ created_inv hi₁ (hask row rfl) hc

theorem init_inv : Inv .init where
  maps _ _ h     := nomatch h
  parents _ h    := absurd h Table.not_mem_empty
  turns _ _ h    := nomatch h
  children _ h   := absurd h Table.not_mem_empty

-- In a run whose steps are admitted, every record that is asked for is new, and so it is created.
theorem record_fresh {w₀ w₁ w₂ : World} {as : List Action} (hi : processes.init w₀)
    (ha : ∀ {w₁ a w₂}, processes.Occurs w₀ as w₁ a w₂ → Admitted w₁ a)
    (h : processes.Occurs w₀ as w₁ a w₂) (hp : w₁.prepare a = some (w', some row)) :
    (∀ r ∈ w'.runtimes, (r.agentId, r.generation) ≠ (row.agentId, row.generation)) ∧
      (w'.createRecord row).isSome := by
  have hw : Inv w₁ := h.invariant (hi ▸ init_inv) fun ho hw => step_inv hw (ha ho) ho.step
  obtain ⟨-, hask⟩ := prepare_inv hw (ha h) hp
  obtain ⟨w₃, hc⟩ := (hask row rfl).created
  exact ⟨(hask row rfl).fresh, Option.isSome_of_eq_some hc⟩

namespace Sample

def wake : Action :=
  .wake "p" false true true true

def record (generation : Nat) : RuntimeRow :=
  { runtimeType := .map, projectId := "p", sessionId := none, agentId := mapAgentId "p", generation }

-- After one map runtime, with what the registry still knows of it
def woken (generations : List (String × Nat)) : World where
  runtimes := { rows := [record 1], unique := List.pairwise_singleton .. }
  sessions := .empty
  spawns   := .empty
  memory   := { generations, agents := [], parents := [], turns := [] }

theorem run_retire : processes.run .init [wake, .retire "p"] = some (woken [("p", 1)]) :=
  rfl

theorem run_restart : processes.run .init [wake, .restart] = some (woken []) :=
  rfl

end Sample

open Sample in
theorem record_fresh_rewoken : ∃ w', (woken [("p", 1)]).prepare wake = some (w', some (record 2)) ∧
    (w'.createRecord (record 2)).isSome := by
  have hs : processes.step (woken [("p", 1)]) wake = some _ := rfl
  have ho : processes.Occurs .init [wake, .retire "p", wake] _ wake _ := .last run_retire hs
  have ha {w₁ a w₂} (ho : processes.Occurs .init [wake, .retire "p", wake] w₁ a w₂) : Admitted w₁ a :=
    of_decide_eq_true (ho.along (p := fun w a => Admitted w a) rfl)
  exact ⟨_, rfl, (record_fresh rfl ha ho rfl).right⟩

open Sample in
-- After a restart the counter begins anew.
theorem record_repeats : processes.run .init [wake, .restart] = some (woken []) ∧
    ∃ w', (woken []).prepare wake = some (w', some (record 1)) ∧ record 1 ∈ w'.runtimes ∧
      w'.createRecord (record 1) = none :=
  ⟨run_restart, _, rfl, List.mem_singleton_self _, rfl⟩

end Runtime
