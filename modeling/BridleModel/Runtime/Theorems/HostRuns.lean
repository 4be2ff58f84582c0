import BridleModel.Runtime.Theorems.Host

namespace RuntimeHost

abbrev Configuration := EventLoop.Configuration World Choice Error

abbrev Label := EventLoop.Label Choice Outside

-- The runtimes created under another one, and under those in turn
def World.Descends (w : World) : String → String → Prop :=
  Relation.TransGen fun id c => ∃ h, w.handles id = some h ∧ c ∈ h.children

variable {c c' : Configuration} {labels : List Label} {w : World} {id d : String} {h : Handle}

theorem evolves_run (r : eventLoop.system.Reachable c) (run : eventLoop.system.run c labels = some c') :
    Evolves c.store c'.store :=
  sound.run (P := Evolves) (fun _ => .refl) .trans (fun hr => RelyBut.evolves hr) r run

-- Below a destroyed runtime none is left.
theorem Inv.descendants (hi : Inv w) (hh : w.handles id = some h) (hs : h.state = .destroyed) (hd : w.Descends id d) :
    ∃ h, w.handles d = some h ∧ h.state.active = false ∧ (w.registered d → h.state = .destroyed) := by
  suffices ∃ h, w.handles d = some h ∧ (h.state = .destroyed ∨
      w.registered d = false ∧ h.state.active = false ∧ h.children = []) by
    have ⟨h, hh, hor⟩ := this
    refine ⟨h, hh, ?_⟩
    cases hor with
    | inl hs => exact ⟨by rw [hs]; rfl, fun _ => hs⟩
    | inr hn => exact ⟨hn.right.left, fun hr => nomatch hn.left.symm.trans hr⟩
  have hchild : ∀ {id c h}, w.handles id = some h → h.state = .destroyed → c ∈ h.children →
      ∃ h, w.handles c = some h ∧ (h.state = .destroyed ∨
        w.registered c = false ∧ h.state.active = false ∧ h.children = []) := by
    intro id c h hh hs hc
    cases hr : w.registered c with
    | true  =>
      have ⟨hc, hhc, hsc⟩ := hi.buried id h hh hs c hc hr
      exact ⟨hc, hhc, .inl hsc⟩
    | false =>
      have ⟨hc, hhc⟩ := hi.child id h hh c hc
      exact ⟨hc, hhc, (hi.removed c hc hhc hr).imp (fun hs => hs) fun hn => ⟨rfl, hn⟩⟩
  induction hd with
  | single hm     =>
    have ⟨h', hh', hc⟩ := hm
    cases hh.symm.trans hh'
    exact hchild hh hs hc
  | tail _ hm ih =>
    have ⟨h₁, hh₁, hor⟩ := ih
    have ⟨h', hh', hc⟩ := hm
    cases hh₁.symm.trans hh'
    cases hor with
    | inl hs => exact hchild hh₁ hs hc
    | inr hn =>
      rw [hn.right.right] at hc
      cases hc

theorem lifecycle_kept (r : eventLoop.system.Reachable c) (run : eventLoop.system.run c labels = some c') :
    (∀ id h, c.store.handles id = some h →
      (∃ s, c.store.records id = some s ∧ (s = h.state ∨ s ∈ h.state.allowed)) ∧
      (h.state = .destroyed → c'.store.records id = some .destroyed) ∧
      (∀ parent, h.spec.parentId = some parent →
        ∃ hp, c.store.handles parent = some hp ∧ h.capabilities.Within hp.capabilities) ∧
      ∃ h', c'.store.handles id = some h' ∧ h'.spec = h.spec ∧ h'.capabilities = h.capabilities ∧
        Leads h.state h'.state) ∧
    ∀ id id' h h' key, c.store.handles id = some h → c.store.handles id' = some h' →
      c.store.registered id → c.store.registered id' → h.state ≠ .destroyed → h'.state ≠ .destroyed →
      h.spec.key = some key → h'.spec.key = some key → id = id' := by
  have hi := (sound.reachable r).left
  have hi' := (sound.reachable (r.run run)).left
  have he := evolves_run r run
  constructor
  case left  =>
    intro id h hh
    have ⟨h', hh', hg⟩ := he.handles id h hh
    refine ⟨hi.recorded id h hh, fun hs => ?_, fun parent hp => ?_, h', hh', hg.spec, hg.capabilities, hg.state⟩
    · have hs' : h'.state = .destroyed := (hs ▸ hg.state).destroyed
      have ⟨s, hrec, hor⟩ := hi'.recorded id h' hh'
      rw [hs'] at hor
      cases hor with
      | inl he => exact he ▸ hrec
      | inr hm => cases hm
    · have ⟨hp, hhp, _, hw⟩ := hi.parent id h parent hh hp
      exact ⟨hp, hhp, hw⟩
  case right =>
    intro id id' h h' key hh hh' hr hr' hs hs' hk hk'
    have h₁ := hi.singleton id h key hh hr hs hk
    have h₂ := hi.singleton id' h' key hh' hr' hs' hk'
    exact Option.some.inj (h₁.symm.trans h₂)

theorem teardown_complete (r : eventLoop.system.Reachable c) (run : eventLoop.system.run c labels = some c') :
    (∀ id h, c.store.handles id = some h → h.state = .destroyed → ∀ d, c.store.Descends id d →
      ∃ hd, c.store.handles d = some hd ∧ hd.state.active = false ∧ (c.store.registered d → hd.state = .destroyed)) ∧
    (∀ t id, c.store.tasks t = some ⟨.destroy id false, some (.ok ())⟩ →
      c.store.registered id = false ∧ ∃ h, c.store.handles id = some h ∧ h.state = .destroyed) ∧
    (∀ t id, c.store.tasks t = some ⟨.finishStop id, some (.ok ())⟩ →
      ∃ h, c.store.handles id = some h ∧ h.state.settled ∧ h.task ≠ some false ∧ h.closed) ∧
    ∀ t id own, c.store.tasks t = some ⟨.stop id own, some (.ok ())⟩ →
      ∃ h h', c.store.handles id = some h ∧ c'.store.handles id = some h' ∧ h'.children = h.children ∧
        (own = false → h.state.settled) := by
  have hi := (sound.reachable r).left
  have he := evolves_run r run
  refine ⟨fun id h hh hs d hd => hi.descendants hh hs hd, fun t id ht => hi.promised t _ _ ht rfl,
    fun t id ht => hi.promised t _ _ ht, fun t id own ht => ?_⟩
  have ⟨hc, hs⟩ := hi.promised t _ _ ht
  have ⟨_, h, hh, _⟩ := hc
  have ⟨h', hh', _⟩ := he.handles id h hh
  refine ⟨h, h', hh, hh', (he.closed id hc).right h h' hh hh', fun ho => ?_⟩
  have ⟨h₁, hh₁, hs₁⟩ := hs ho
  cases hh.symm.trans hh₁
  exact hs₁

section Sample

def sampleRequest (role : Role) (agentId : String) (parentId : Option String) (tools : List String) : Request where
  spec          := { projectId := "p", agentId, generation := 1, role, sessionId := some "s", parentId }
  grantedTools  := tools
  grantedSkills := []
  sourceTools   := ["read", "write"]
  sourceSkills  := []
  hasTask       := false

def steps (p : Nat) (n : Nat) : List Label :=
  List.replicate n (.resume p .go)

-- A parent and its child; then the parent is destroyed.
def sampleLabels : List Label :=
  [.outside (.call (.create (sampleRequest .parent "a" none ["read", "write"]))), .start 0, .resume 0 .go,
    .resume 0 (.drawn "a")] ++ steps 0 3 ++
  [.outside (.call (.create (sampleRequest .child "b" (some "a") ["read"]))), .start 1, .resume 1 .go,
    .resume 1 (.drawn "b")] ++ steps 1 3 ++
  [.outside (.call (.destroy "a" false)), .start 2] ++ steps 2 1 ++ [.start 3] ++ steps 3 4 ++ [.start 4] ++ steps 4 4 ++
  [.start 5, .outside (.closed "b")] ++ steps 5 3 ++ steps 4 1 ++ [.outside (.closed "a")] ++ steps 4 3 ++
  steps 3 2 ++ [.start 6] ++ steps 6 6 ++ steps 3 5 ++ steps 2 1

def sampleStart : Configuration where
  store   := .empty
  running := fun _ => none

def returned (c : Configuration) : Bool :=
  match c.store.tasks 2 with
  | some ⟨.destroy id false, some (.ok ())⟩ => id = "a" ∧ c.store.stateOf "a" = some .destroyed
  | _                                       => false

theorem sample_run : ∃ c, eventLoop.system.Reachable c ∧
    c.store.tasks 2 = some ⟨.destroy "a" false, some (.ok ())⟩ ∧ c.store.stateOf "a" = some .destroyed := by
  have hrun : (eventLoop.system.run sampleStart sampleLabels).any returned = true := by
    decide +kernel
  have ⟨c, hr, hc⟩ := (Option.any_eq_true ..).mp hrun
  have r : eventLoop.system.Reachable c := .intro ⟨⟨fun _ => none, rfl⟩, fun _ => rfl⟩ hr
  unfold returned at hc
  split at hc
  case h_2       => cases hc
  case h_1 id ht =>
    have ⟨hid, hs⟩ := of_decide_eq_true hc
    exact ⟨c, r, hid ▸ ht, hs⟩

theorem lifecycle_kept_sample : ∃ c, eventLoop.system.Reachable c ∧ c.store.records "a" = some .destroyed := by
  have ⟨c, r, _, hs⟩ := sample_run
  have ⟨h, hh, hd⟩ := Option.map_eq_some_iff.mp hs
  have ⟨hkept, _⟩ := lifecycle_kept r TransitionSystem.run_nil
  have ⟨_, hrec, _⟩ := hkept "a" h hh
  exact ⟨c, r, hrec hd⟩

theorem teardown_complete_sample : ∃ c, eventLoop.system.Reachable c ∧
    c.store.tasks 2 = some ⟨.destroy "a" false, some (.ok ())⟩ ∧ c.store.registered "a" = false := by
  have ⟨c, r, ht, _⟩ := sample_run
  have ⟨_, hdestroy, _⟩ := teardown_complete r TransitionSystem.run_nil
  exact ⟨c, r, ht, (hdestroy 2 "a" ht).left⟩

end Sample
end RuntimeHost
