import Mathlib.Logic.Relation
import BridleModel.Runtime.Host

namespace RuntimeHost

section States

variable {a b : State}

-- Along `ALLOWED_TRANSITIONS`
def Leads : State → State → Prop :=
  Relation.ReflTransGen fun a b => b ∈ a.allowed

def State.past : State → Bool
  | .creating | .ready | .running => false
  | _                             => true

theorem leads_refl : Leads a a :=
  .refl

theorem leads_allowed (h : b ∈ a.allowed) : Leads a b :=
  .single h

theorem Leads.keeps {P : State → Prop} (hstep : ∀ a b, b ∈ a.allowed → P a → P b) (h : Leads a b) (hp : P a) : P b := by
  induction h with
  | refl         => exact hp
  | tail _ hs hi => exact hstep _ _ hs hi

theorem Leads.past (h : Leads a b) : a.past → b.past :=
  h.keeps (P := fun a => a.past = true) (by intro a b; cases a <;> cases b <;> simp [State.allowed, State.past])

theorem Leads.settled (h : Leads a b) : a.settled → b.settled :=
  h.keeps (P := fun a => a.settled = true) (by intro a b; cases a <;> cases b <;> simp [State.allowed, State.settled])

theorem Leads.destroyed (h : Leads .destroyed b) : b = .destroyed :=
  h.keeps (P := (· = .destroyed)) (fun a b hb ha => by rw [ha] at hb; cases hb) rfl

theorem past_of_settled (h : a.settled) : a.past := by
  cases a <;> simp_all [State.settled, State.past]

theorem settled_of_past (h : a.past) (hn : a ≠ .stopping) : a.settled := by
  cases a <;> simp_all [State.past, State.settled]

theorem not_active_of_past (h : a.past) : a.active = false := by
  cases a <;> simp_all [State.past, State.active]

theorem ne_of_active (h : a.active) : a ≠ .destroyed ∧ a ≠ .creating := by
  cases a <;> simp_all [State.active]

-- The only step to a state that is active comes from an active state, or is the end of a creation.
theorem active_of_allowed (h : b ∈ a.allowed) (hb : b.active) : b = .ready ∨ a.active := by
  cases a <;> cases b <;> simp_all [State.allowed, State.active]

theorem ne_of_allowed (h : b ∈ a.allowed) : a ≠ .destroyed ∧ b ≠ .creating := by
  cases a <;> cases b <;> simp_all [State.allowed]

end States

section Relations

structure Grows (h h' : Handle) : Prop where
  spec         : h'.spec = h.spec
  capabilities : h'.capabilities = h.capabilities
  state        : Leads h.state h'.state
  children     : h.children ⊆ h'.children
  task         : h.task ≠ some false → h'.task ≠ some false
  closed       : h.closed → h'.closed

-- No runtime will be created under this one any more.
def World.Closed (w : World) (id : String) : Prop :=
  w.admitted ≠ some id ∧ ∃ h, w.handles id = some h ∧ h.state.past

-- What happens in the course of time, whoever does it
structure Evolves (w w' : World) : Prop where
  handles : ∀ id h, w.handles id = some h → ∃ h', w'.handles id = some h' ∧ Grows h h'
  closed  : ∀ id, w.Closed id → w'.admitted ≠ some id ∧
    ∀ h h', w.handles id = some h → w'.handles id = some h' → h'.children = h.children
  removed : ∀ id, (w.handles id).isSome → w.registered id = false → w'.registered id = false
  tasks   : ∀ t code r, w.tasks t = some ⟨code, r⟩ → ∃ r', w'.tasks t = some ⟨code, r'⟩ ∧ ∀ v, r = some v → r' = some v

-- What nobody else changes while one holds the lock
def Protected : Lock → World → World → Prop
  | .create, w, w'        => w'.registered = w.registered ∧ w'.singletons = w.singletons ∧ w'.admitted = w.admitted ∧
    (∀ id, w.handles id = none → w'.handles id = none) ∧
    ∀ id h, w.handles id = some h → ∃ h', w'.handles id = some h' ∧ h'.children = h.children ∧
      (h.state.active = false → h'.state.active = false)
  | .transition id, w, w' => ∀ h, w.handles id = some h →
    w'.records id = w.records id ∧ ∃ h', w'.handles id = some h' ∧ h'.state = h.state
  | .stop _, _, _         => True

-- What `p` relies on while the others take their steps, and what its own calls come to for their caller; what some locks
-- protect may be left out.
structure RelyBut (free : List Lock) (p : Nat) (w w' : World) : Prop where
  evolves : Evolves w w'
  own     : ∀ code, w.tasks p = some ⟨code, none⟩ → w'.tasks p = some ⟨code, none⟩
  held    : ∀ lock, w.locks lock = some p → w'.locks lock = some p
  locks   : ∀ lock ∉ free, w.locks lock = some p → Protected lock w w'

abbrev Rely : Nat → World → World → Prop :=
  RelyBut []

variable {h h' h'' : Handle} {w w' w'' : World} {p q : Nat} {id : String} {free free' : List Lock} {lock : Lock}

theorem Grows.refl : Grows h h :=
  ⟨rfl, rfl, leads_refl, List.Subset.refl _, id, id⟩

theorem Grows.trans (h₁ : Grows h h') (h₂ : Grows h' h'') : Grows h h'' where
  spec         := h₂.spec.trans h₁.spec
  capabilities := h₂.capabilities.trans h₁.capabilities
  state        := Relation.ReflTransGen.trans h₁.state h₂.state
  children     := List.Subset.trans h₁.children h₂.children
  task         := h₂.task ∘ h₁.task
  closed       := h₂.closed ∘ h₁.closed

theorem Evolves.refl : Evolves w w where
  handles _ h hh    := ⟨h, hh, .refl⟩
  closed _ hc       := ⟨hc.left, fun _ _ hh hh' => Option.some.inj (hh'.symm.trans hh) ▸ rfl⟩
  removed _ _ hr    := hr
  tasks _ _ r ht    := ⟨r, ht, fun _ hv => hv⟩

theorem Evolves.closed' (he : Evolves w w') (hc : w.Closed id) : w'.Closed id := by
  have ⟨_, h, hh, hp⟩ := hc
  have ⟨h', hh', hg⟩ := he.handles id h hh
  exact ⟨(he.closed id hc).left, h', hh', hg.state.past hp⟩

theorem Evolves.trans (h₁ : Evolves w w') (h₂ : Evolves w' w'') : Evolves w w'' where
  handles id h hh  := by
    have ⟨h', hh', hg⟩ := h₁.handles id h hh
    have ⟨h'', hh'', hg'⟩ := h₂.handles id h' hh'
    exact ⟨h'', hh'', hg.trans hg'⟩
  closed id hc     := by
    have hc' := h₁.closed' hc
    refine ⟨(h₂.closed id hc').left, fun h h'' hh hh'' => ?_⟩
    have ⟨h', hh', _⟩ := h₁.handles id h hh
    exact ((h₂.closed id hc').right h' h'' hh' hh'').trans ((h₁.closed id hc).right h h' hh hh')
  removed id hh hr := by
    have ⟨h, hh⟩ := Option.isSome_iff_exists.mp hh
    have ⟨h', hh', _⟩ := h₁.handles id h hh
    exact h₂.removed id (hh' ▸ rfl) (h₁.removed id (hh ▸ rfl) hr)
  tasks t code r ht := by
    have ⟨r', ht', hv⟩ := h₁.tasks t code r ht
    have ⟨r'', ht'', hv'⟩ := h₂.tasks t code r' ht'
    exact ⟨r'', ht'', fun v h => hv' v (hv v h)⟩

theorem Protected.refl : Protected lock w w := by
  cases lock with
  | create        => exact ⟨rfl, rfl, rfl, fun _ h => h, fun _ h hh => ⟨h, hh, rfl, fun ha => ha⟩⟩
  | transition id => exact fun h hh => ⟨rfl, h, hh, rfl⟩
  | stop id       => trivial

theorem Protected.trans (h₁ : Protected lock w w') (h₂ : Protected lock w' w'') : Protected lock w w'' := by
  cases lock with
  | create        =>
    have ⟨hr, hs, ha, hn, hh⟩ := h₁
    have ⟨hr', hs', ha', hn', hh'⟩ := h₂
    refine ⟨hr'.trans hr, hs'.trans hs, ha'.trans ha, fun id h => hn' id (hn id h), fun id h hi => ?_⟩
    have ⟨h', hi', hc, hi⟩ := hh id h hi
    have ⟨h'', hi'', hc', hi'⟩ := hh' id h' hi'
    exact ⟨h'', hi'', hc'.trans hc, hi' ∘ hi⟩
  | transition id =>
    intro h hh
    have ⟨hr, h', hh', hs⟩ := h₁ h hh
    have ⟨hr', h'', hh'', hs'⟩ := h₂ h' hh'
    exact ⟨hr'.trans hr, h'', hh'', hs'.trans hs⟩
  | stop id       => trivial

theorem RelyBut.refl : RelyBut free p w w :=
  ⟨.refl, fun _ h => h, fun _ h => h, fun _ _ _ => .refl⟩

theorem RelyBut.trans (h₁ : RelyBut free p w w') (h₂ : RelyBut free p w' w'') : RelyBut free p w w'' where
  evolves            := h₁.evolves.trans h₂.evolves
  own code h         := h₂.own code (h₁.own code h)
  held lock hl       := h₂.held lock (h₁.held lock hl)
  locks lock hf hl   := (h₁.locks lock hf hl).trans (h₂.locks lock hf (h₁.held lock hl))

theorem RelyBut.weaken (h : RelyBut free p w w') (hf : free ⊆ free') : RelyBut free' p w w' :=
  ⟨h.evolves, h.own, h.held, fun lock hl => h.locks lock fun hm => hl (hf hm)⟩

theorem Rely.weaken (h : Rely p w w') : RelyBut free p w w' :=
  RelyBut.weaken h (List.nil_subset _)

end Relations

section Invariant

-- Destroyed and forgotten
def World.Gone (w : World) (id : String) : Prop :=
  w.registered id = false ∧ ∃ h, w.handles id = some h ∧ h.state = .destroyed

-- What a call that has returned has brought about
def World.Promise (w : World) : Code → Except Error Unit → Prop
  | .transition id outcome, .ok _ => ∃ h, w.handles id = some h ∧ Leads outcome.state h.state
  | .stop id own, .ok _           =>
    w.Closed id ∧ (own = false → ∃ h, w.handles id = some h ∧ h.state.settled)
  | .finishStop id, .ok _         =>
    ∃ h, w.handles id = some h ∧ h.state.settled ∧ h.task ≠ some false ∧ h.closed
  | .destroy id own, .ok _        => own = false → w.Gone id
  | .finishDestroy id, .ok _      => w.Gone id
  | _, _                          => True

def World.Known (w : World) : Code → Prop
  | .create request                                => ∀ id, request.spec.parentId = some id → (w.handles id).isSome
  | .transition id _ | .stop id _ | .destroy id _ => (w.handles id).isSome
  | .finishStop id                                 => ∃ h, w.handles id = some h ∧ h.state.past
  | .finishDestroy id                              => (w.handles id).isSome

def Capabilities.Within (view parent : Capabilities) : Prop :=
  view.tools ⊆ parent.tools ∧ view.skills ⊆ parent.skills

structure Inv (w : World) : Prop where
  recorded    : ∀ id h, w.handles id = some h → ∃ s, w.records id = some s ∧ (s = h.state ∨ s ∈ h.state.allowed)
  registered  : ∀ id, w.registered id → (w.handles id).isSome
  singleton   : ∀ id h key, w.handles id = some h → w.registered id → h.state ≠ .destroyed → h.spec.key = some key →
    w.singletons key = some id
  child       : ∀ id h, w.handles id = some h → ∀ c ∈ h.children, ∃ hc, w.handles c = some hc
  parent      : ∀ c hc id, w.handles c = some hc → hc.spec.parentId = some id →
    ∃ h, w.handles id = some h ∧ c ∈ h.children ∧ hc.capabilities.Within h.capabilities
  active      : ∀ id h, w.handles id = some h → h.state.active → w.registered id
  removed     : ∀ id h, w.handles id = some h → w.registered id = false →
    h.state = .destroyed ∨ h.state.active = false ∧ h.children = []
  buried      : ∀ id h, w.handles id = some h → h.state = .destroyed → ∀ c ∈ h.children, w.registered c →
    ∃ hc, w.handles c = some hc ∧ hc.state = .destroyed
  admitted    : ∀ id, w.admitted = some id → w.registered id ∧
    ∃ h, w.handles id = some h ∧ h.state ≠ .destroyed ∧ h.state ≠ .creating
  unlocked    : w.locks .create = none → w.admitted = none
  fresh       : ∀ t, w.next ≤ t → w.tasks t = none
  stopTask    : ∀ id h t, w.handles id = some h → h.stopTask = some t →
    h.state.past ∧ ∃ r, w.tasks t = some ⟨.finishStop id, r⟩
  destroyTask : ∀ id h t, w.handles id = some h → h.destroyTask = some t → ∃ r, w.tasks t = some ⟨.finishDestroy id, r⟩
  promised    : ∀ t code r, w.tasks t = some ⟨code, some r⟩ → w.Promise code r
  known       : ∀ t code r, w.tasks t = some ⟨code, r⟩ → w.Known code

variable {w w' : World} {id : String} {code : Code} {r : Except Error Unit} {p q : Nat}

theorem Evolves.isSome (he : Evolves w w') (h : (w.handles id).isSome) : (w'.handles id).isSome := by
  have ⟨h, hh⟩ := Option.isSome_iff_exists.mp h
  have ⟨h', hh', _⟩ := he.handles id h hh
  exact hh' ▸ rfl

theorem Evolves.gone (he : Evolves w w') (h : w.Gone id) : w'.Gone id := by
  have ⟨hr, h, hh, hs⟩ := h
  have ⟨h', hh', hg⟩ := he.handles id h hh
  exact ⟨he.removed id (hh ▸ rfl) hr, h', hh', (hs ▸ hg.state).destroyed⟩

theorem Evolves.known (he : Evolves w w') (h : w.Known code) : w'.Known code := by
  cases code with
  | create request        => exact fun id hid => he.isSome (h id hid)
  | transition id outcome => exact he.isSome h
  | stop id own           => exact he.isSome h
  | destroy id own        => exact he.isSome h
  | finishDestroy id      => exact he.isSome h
  | finishStop id         =>
    have ⟨h, hh, hp⟩ := h
    have ⟨h', hh', hg⟩ := he.handles id h hh
    exact ⟨h', hh', hg.state.past hp⟩

theorem Evolves.promise (he : Evolves w w') (h : w.Promise code r) : w'.Promise code r := by
  cases r with
  | error e => cases code <;> trivial
  | ok u    =>
    cases code with
    | create request        => trivial
    | destroy id own        => exact fun ho => he.gone (h ho)
    | finishDestroy id      => exact he.gone h
    | transition id outcome =>
      have ⟨h, hh, hl⟩ := h
      have ⟨h', hh', hg⟩ := he.handles id h hh
      exact ⟨h', hh', Relation.ReflTransGen.trans hl hg.state⟩
    | stop id own           =>
      have ⟨hc, hs⟩ := h
      refine ⟨he.closed' hc, fun ho => ?_⟩
      have ⟨h, hh, hs⟩ := hs ho
      have ⟨h', hh', hg⟩ := he.handles id h hh
      exact ⟨h', hh', hg.state.settled hs⟩
    | finishStop id         =>
      have ⟨h, hh, hs, ht, hc⟩ := h
      have ⟨h', hh', hg⟩ := he.handles id h hh
      exact ⟨h', hh', hg.state.settled hs, hg.task ht, hg.closed hc⟩

end Invariant

section Quiet

-- A change of a handle that nobody minds
structure Quiet (h h' : Handle) : Prop where
  spec         : h'.spec = h.spec
  capabilities : h'.capabilities = h.capabilities
  state        : h'.state = h.state
  children     : h'.children = h.children
  task         : h.task ≠ some false → h'.task ≠ some false
  closed       : h.closed → h'.closed

variable {w : World} {id j : String} {f : Handle → Handle} {h h' : Handle} {p : Nat}

theorem update_some (hh : w.handles j = some h) :
    (w.updateHandle id f).handles j = some (if j = id then f h else h) := by
  by_cases hj : j = id
  case pos =>
    subst hj
    simp [World.updateHandle, hh]
  case neg => simp [World.updateHandle, hj, hh]

theorem of_update (hh : (w.updateHandle id f).handles j = some h') :
    ∃ h, w.handles j = some h ∧ h' = if j = id then f h else h := by
  by_cases hj : j = id
  case pos =>
    subst hj
    simp only [World.updateHandle, Function.update_self, Option.map_eq_some_iff] at hh
    have ⟨h, hh, he⟩ := hh
    exact ⟨h, hh, by simp [he]⟩
  case neg =>
    rw [World.updateHandle] at hh
    simp only [Function.update_of_ne hj] at hh
    exact ⟨h', hh, by simp [hj]⟩

theorem Quiet.refl : Quiet h h :=
  ⟨rfl, rfl, rfl, rfl, id, id⟩

theorem Quiet.grows (hq : Quiet h h') : Grows h h' where
  spec         := hq.spec
  capabilities := hq.capabilities
  state        := hq.state ▸ leads_refl
  children     := hq.children ▸ List.Subset.refl _
  task         := hq.task
  closed       := hq.closed

theorem quiet_ite (hf : ∀ h, w.handles id = some h → Quiet h (f h)) (hh : w.handles j = some h) :
    Quiet h (if j = id then f h else h) := by
  split
  case isTrue he  => exact hf h (he ▸ hh)
  case isFalse _ => exact .refl

theorem rely_update (hf : ∀ h, w.handles id = some h → Quiet h (f h)) : Rely p w (w.updateHandle id f) where
  evolves := {
    handles := fun _ _ hh => ⟨_, update_some hh, (quiet_ite hf hh).grows⟩
    closed  := fun _ hc => ⟨hc.left, fun h h' hh hh' => by
      rw [update_some hh] at hh'
      exact Option.some.inj hh' ▸ (quiet_ite hf hh).children⟩
    removed := fun _ _ hr => hr
    tasks   := fun _ _ r ht => ⟨r, ht, fun _ hv => hv⟩
  }
  own     := fun _ h => h
  held    := fun _ h => h
  locks   := by
    intro lock _ hl
    cases lock with
    | create        =>
      refine ⟨rfl, rfl, rfl, ?_, fun j h hh => ⟨_, update_some hh, (quiet_ite hf hh).children, fun ha => ?_⟩⟩
      · intro j hn
        cases hu : (w.updateHandle id f).handles j with
        | none   => rfl
        | some h =>
          have ⟨h, hh, _⟩ := of_update hu
          cases hn.symm.trans hh
      · exact (quiet_ite hf hh).state ▸ ha
    | transition j => exact fun h hh => ⟨rfl, _, update_some hh, (quiet_ite hf hh).state⟩
    | stop j       => trivial

theorem Inv.update (hi : Inv w) (hf : ∀ h, w.handles id = some h → Quiet h (f h))
    (hstop : ∀ h t, w.handles id = some h → (f h).stopTask = some t →
      h.state.past ∧ ∃ r, w.tasks t = some ⟨.finishStop id, r⟩)
    (hdestroy : ∀ h t, w.handles id = some h → (f h).destroyTask = some t →
      ∃ r, w.tasks t = some ⟨.finishDestroy id, r⟩) : Inv (w.updateHandle id f) where
  recorded j h' hh := by
    have ⟨h, hh, he⟩ := of_update hh
    exact he ▸ (quiet_ite hf hh).state.symm ▸ hi.recorded j h hh
  registered j hr  := by
    have ⟨h, hh⟩ := Option.isSome_iff_exists.mp (hi.registered j hr)
    exact update_some hh ▸ rfl
  singleton j h' key hh hr hs hk := by
    have ⟨h, hh, he⟩ := of_update hh
    have hq := quiet_ite hf hh
    exact hi.singleton j h key hh hr (hq.state ▸ he ▸ hs) (hq.spec ▸ he ▸ hk)
  child j h' hh c hc := by
    have ⟨h, hh, he⟩ := of_update hh
    have ⟨hc, hhc⟩ := hi.child j h hh c ((quiet_ite hf hh).children ▸ he ▸ hc)
    exact ⟨_, update_some hhc⟩
  parent c hc j hh hp := by
    have ⟨hc, hh, he⟩ := of_update hh
    have hq := quiet_ite hf hh
    have ⟨h, hh', hm, hw⟩ := hi.parent c hc j hh (hq.spec ▸ he ▸ hp)
    have hq' := quiet_ite hf hh'
    exact ⟨_, update_some hh', hq'.children.symm ▸ hm, by rw [he, hq.capabilities, hq'.capabilities]; exact hw⟩
  active j h' hh ha := by
    have ⟨h, hh, he⟩ := of_update hh
    exact hi.active j h hh ((quiet_ite hf hh).state ▸ he ▸ ha)
  removed j h' hh hr := by
    have ⟨h, hh, he⟩ := of_update hh
    have hq := quiet_ite hf hh
    rw [he, hq.state, hq.children]
    exact hi.removed j h hh hr
  buried j h' hh hs c hc hr := by
    have ⟨h, hh, he⟩ := of_update hh
    have hq := quiet_ite hf hh
    have ⟨hc, hhc, hsc⟩ := hi.buried j h hh (hq.state ▸ he ▸ hs) c (hq.children ▸ he ▸ hc) hr
    exact ⟨_, update_some hhc, (quiet_ite hf hhc).state.trans hsc⟩
  admitted j ha := by
    have ⟨hr, h, hh, hd, hc⟩ := hi.admitted j ha
    have hq := quiet_ite hf hh
    exact ⟨hr, _, update_some hh, hq.state.symm ▸ hd, hq.state.symm ▸ hc⟩
  unlocked := hi.unlocked
  fresh    := hi.fresh
  stopTask j h' t hh ht := by
    have ⟨h, hh, he⟩ := of_update hh
    rw [he, (quiet_ite hf hh).state]
    rw [he] at ht
    split at ht
    case isTrue hj  => exact hj ▸ hstop h t (hj ▸ hh) ht
    case isFalse hj => exact hi.stopTask j h t hh ht
  destroyTask j h' t hh ht := by
    have ⟨h, hh, he⟩ := of_update hh
    rw [he] at ht
    split at ht
    case isTrue hj  => exact hj ▸ hdestroy h t (hj ▸ hh) ht
    case isFalse hj => exact hi.destroyTask j h t hh ht
  promised t code r ht := (rely_update (p := 0) hf).evolves.promise (hi.promised t code r ht)
  known t code r ht    := (rely_update (p := 0) hf).evolves.known (hi.known t code r ht)

end Quiet

section Operations

variable {w w' : World} {id j : String} {h h' : Handle} {p q : Nat} {free : List Lock} {lock : Lock} {source target : State}
  {request : Request} {capabilities : Capabilities} {code : Code} {r : Except Error Unit}

theorem protected_of_eq (hh : w'.handles = w.handles) (hr : w'.records = w.records) (hg : w'.registered = w.registered)
    (hs : w'.singletons = w.singletons) (ha : lock = .create → w'.admitted = w.admitted) : Protected lock w w' := by
  cases lock with
  | create       => exact ⟨hg, hs, ha rfl, fun _ hn => hh ▸ hn, fun _ h hj => ⟨h, hh ▸ hj, rfl, fun ha => ha⟩⟩
  | transition j => exact fun h hj => ⟨hr ▸ rfl, h, hh ▸ hj, rfl⟩
  | stop j       => trivial

theorem evolves_of_eq (hh : w'.handles = w.handles) (hg : w'.registered = w.registered) (ht : w'.tasks = w.tasks)
    (ha : ∀ id, w.Closed id → w'.admitted ≠ some id) : Evolves w w' where
  handles _ h hj := ⟨h, hh ▸ hj, .refl⟩
  closed id hc   := ⟨ha id hc, fun _ _ hj hj' => Option.some.inj ((hh ▸ hj').symm.trans hj) ▸ rfl⟩
  removed _ _ hr := hg ▸ hr
  tasks _ _ r hr := ⟨r, ht ▸ hr, fun _ hv => hv⟩

theorem rely_acquire (hfree : w.locks lock = none) : RelyBut free q w (w.acquire lock p) where
  evolves     := evolves_of_eq rfl rfl rfl fun _ hc => hc.left
  own _ h     := h
  held l hl   := by
    have hne : l ≠ lock := by
      intro he
      cases hfree.symm.trans (he ▸ hl)
    exact (Function.update_of_ne hne ..).trans hl
  locks _ _ _ := protected_of_eq rfl rfl rfl rfl fun _ => rfl

theorem Inv.acquire (hi : Inv w) : Inv (w.acquire lock p) := by
  have he : Evolves w (w.acquire lock p) := evolves_of_eq rfl rfl rfl fun _ hc => hc.left
  refine { hi with unlocked := ?_, promised := ?_, known := ?_ }
  · intro hn
    by_cases hl : lock = .create
    case pos =>
      subst hl
      simp [World.acquire] at hn
    case neg =>
      rw [World.acquire] at hn
      simp only [Function.update_of_ne (Ne.symm hl)] at hn
      exact hi.unlocked hn
  · exact fun t code r ht => he.promise (hi.promised t code r ht)
  · exact fun t code r ht => he.known (hi.known t code r ht)

theorem evolves_release : Evolves w (w.release lock) := by
  refine evolves_of_eq rfl rfl rfl fun id hc => ?_
  rw [World.release]
  dsimp only
  split
  case isTrue  => nofun
  case isFalse => exact hc.left

theorem protected_release {l : Lock} (hne : l ≠ lock) : Protected l w (w.release lock) :=
  protected_of_eq rfl rfl rfl rfl fun hc => if_neg fun he => hne (hc.trans he.symm)

theorem rely_release (hl : w.locks lock ≠ some q) : Rely q w (w.release lock) where
  evolves     := evolves_release
  own _ h     := h
  held l h    := by
    have hne : l ≠ lock := fun he => hl (he ▸ h)
    exact (Function.update_of_ne hne ..).trans h
  locks l _ h := protected_release fun he => hl (he ▸ h)

theorem Inv.release (hi : Inv w) : Inv (w.release lock) := by
  refine { hi with admitted := ?_, unlocked := ?_, promised := ?_, known := ?_ }
  · intro id ha
    rw [World.release] at ha
    dsimp only at ha
    split at ha
    case isTrue  => cases ha
    case isFalse => exact hi.admitted id ha
  · intro hn
    rw [World.release] at hn ⊢
    dsimp only at hn ⊢
    split
    case isTrue     => rfl
    case isFalse hc => exact hi.unlocked ((Function.update_of_ne (Ne.symm hc) ..).symm.trans hn)
  · exact fun t code r ht => evolves_release.promise (hi.promised t code r ht)
  · exact fun t code r ht => evolves_release.known (hi.known t code r ht)

theorem rely_setRecord (hl : (w.handles id).isSome → w.locks (.transition id) = some q → .transition id ∈ free) :
    RelyBut free q w (w.setRecord id target) where
  evolves       := evolves_of_eq rfl rfl rfl fun _ hc => hc.left
  own _ h       := h
  held _ h      := h
  locks l hf h  := by
    cases l with
    | create       => exact ⟨rfl, rfl, rfl, fun _ hn => hn, fun _ h hh => ⟨h, hh, rfl, fun ha => ha⟩⟩
    | stop j       => trivial
    | transition j =>
      intro h' hh
      have hne : j ≠ id := by
        intro he
        subst he
        exact hf (hl (hh ▸ rfl) h)
      exact ⟨Function.update_of_ne hne .., h', hh, rfl⟩

theorem Inv.setRecord (hi : Inv w) (ht : ∀ h, w.handles id = some h → target = h.state ∨ target ∈ h.state.allowed) :
    Inv (w.setRecord id target) := by
  have he : Evolves w (w.setRecord id target) := evolves_of_eq rfl rfl rfl fun _ hc => hc.left
  refine { hi with recorded := ?_, promised := ?_, known := ?_ }
  · intro j h hh
    by_cases hj : j = id
    case pos =>
      subst hj
      exact ⟨target, Function.update_self .., ht h hh⟩
    case neg =>
      have ⟨s, hs, hc⟩ := hi.recorded j h hh
      exact ⟨s, (Function.update_of_ne hj ..).trans hs, hc⟩
  · exact fun t code r ht => he.promise (hi.promised t code r ht)
  · exact fun t code r ht => he.known (hi.known t code r ht)

-- What `setState` needs when the new state is one of these
structure World.Entering (w : World) (id : String) (p : Nat) (target : State) : Prop where
  ready     : target = .ready → w.registered id ∧ w.locks .create = some p
  destroyed : target = .destroyed → w.Closed id ∧ ∀ h, w.handles id = some h → ∀ c ∈ h.children, w.registered c →
    ∃ hc, w.handles c = some hc ∧ hc.state = .destroyed

theorem state_of (hs : w.stateOf id = some source) (hh : w.handles id = some h) : h.state = source := by
  rw [World.stateOf, hh] at hs
  exact Option.some.inj hs

theorem evolves_setState (hs : w.stateOf id = some source) (ht : target ∈ source.allowed) :
    Evolves w (w.setState id target) where
  handles j h hh   := by
    refine ⟨_, update_some hh, ?_⟩
    split
    case isFalse   => exact .refl
    case isTrue he =>
      subst he
      refine ⟨rfl, rfl, ?_, List.Subset.refl _, id, id⟩
      rw [state_of hs hh]
      exact leads_allowed ht
  closed j hc      := by
    refine ⟨hc.left, fun h h' hh hh' => ?_⟩
    rw [World.setState, update_some hh] at hh'
    cases hh'
    split <;> rfl
  removed _ _ hr   := hr
  tasks _ _ r hr   := ⟨r, hr, fun _ hv => hv⟩

theorem rely_setState (hs : w.stateOf id = some source) (ht : target ∈ source.allowed)
    (hl : w.locks (.transition id) = some q → .transition id ∈ free)
    (hc : target = .ready → w.locks .create = some q → .create ∈ free) : RelyBut free q w (w.setState id target) where
  evolves       := evolves_setState hs ht
  own _ h       := h
  held _ h      := h
  locks l hf h  := by
    cases l with
    | stop j       => trivial
    | create       =>
      refine ⟨rfl, rfl, rfl, ?_, fun j h' hh => ⟨_, update_some hh, ?_, fun ha => ?_⟩⟩
      · intro j hn
        cases hu : (w.setState id target).handles j with
        | none   => rfl
        | some h =>
          have ⟨_, hh, _⟩ := of_update hu
          cases hn.symm.trans hh
      · split <;> rfl
      · split
        case isFalse   => exact ha
        case isTrue he =>
          subst he
          rw [state_of hs hh] at ha
          cases hta : target.active with
          | false => rfl
          | true  =>
            cases active_of_allowed ht hta with
            | inl hr => exact absurd (hc hr h) hf
            | inr hr => cases ha.symm.trans hr
    | transition j =>
      intro h' hh
      have hne : j ≠ id := by
        intro he
        subst he
        exact hf (hl h)
      exact ⟨rfl, _, update_some hh, by rw [if_neg hne]⟩

theorem Inv.setState (hi : Inv w) (hs : w.stateOf id = some source) (ht : target ∈ source.allowed)
    (hr : w.records id = some target) (he : w.Entering id p target) : Inv (w.setState id target) := by
  have hev : Evolves w (w.setState id target) := evolves_setState hs ht
  have ⟨h₀, hh₀, hs₀⟩ := Option.map_eq_some_iff.mp hs
  have ⟨hnd, hnc⟩ := ne_of_allowed ht
  have hstate : ∀ {j h}, w.handles j = some h → h.state ≠ .destroyed ∨ j ≠ id := by
    intro j h hh
    by_cases hj : j = id
    case neg => exact .inr hj
    case pos =>
      subst hj
      cases hh₀.symm.trans hh
      exact .inl (hs₀ ▸ hnd)
  constructor
  case registered => exact fun j hj => hev.isSome (hi.registered j hj)
  case unlocked   => exact hi.unlocked
  case fresh      => exact hi.fresh
  case promised   => exact fun t code r ht => hev.promise (hi.promised t code r ht)
  case known      => exact fun t code r ht => hev.known (hi.known t code r ht)
  case recorded =>
    intro j h' hh
    have ⟨h, hh₁, he⟩ := of_update hh
    rw [he]
    split
    case isFalse   => exact hi.recorded j h hh₁
    case isTrue hj => exact ⟨target, hj ▸ hr, .inl rfl⟩
  case singleton =>
    intro j h' key hh hreg hne hk
    have ⟨h, hh₁, he⟩ := of_update hh
    subst he
    have hk' : h.spec.key = some key := by
      rw [← hk]
      split <;> rfl
    refine hi.singleton j h key hh₁ hreg ?_ hk'
    split at hne
    case isFalse   => exact hne
    case isTrue hj => exact (hstate hh₁).resolve_right (not_not.mpr hj)
  case child =>
    intro j h' hh c hc
    have ⟨h, hh₁, he⟩ := of_update hh
    subst he
    have ⟨_, hhc⟩ := hi.child j h hh₁ c (by split at hc <;> exact hc)
    exact ⟨_, update_some hhc⟩
  case parent =>
    intro c hc j hh hp
    have ⟨hc, hhc₁, he⟩ := of_update hh
    subst he
    have ⟨h, hh, hm, hw⟩ := hi.parent c hc j hhc₁ (by split at hp <;> exact hp)
    refine ⟨_, update_some hh, by split <;> exact hm, ?_⟩
    have hcap : ∀ (x : Handle) k, (if k = id then { x with state := target } else x).capabilities = x.capabilities := by
      intro x k
      split <;> rfl
    rw [hcap, hcap]
    exact hw
  case active =>
    intro j h' hh ha
    have ⟨h, hh₁, he⟩ := of_update hh
    subst he
    split at ha
    case isFalse   => exact hi.active j h hh₁ ha
    case isTrue hj =>
      subst hj
      cases active_of_allowed ht ha with
      | inl hready => exact (he.ready hready).left
      | inr hact   =>
        cases hh₀.symm.trans hh₁
        exact hi.active j h₀ hh₀ (hs₀ ▸ hact)
  case removed =>
    intro j h' hh hreg
    have ⟨h, hh₁, he⟩ := of_update hh
    subst he
    split
    case isFalse   => exact hi.removed j h hh₁ hreg
    case isTrue hj =>
      subst hj
      have ⟨hin, hch⟩ := (hi.removed j h hh₁ hreg).resolve_left ((hstate hh₁).resolve_right (not_not.mpr rfl))
      refine .inr ⟨?_, hch⟩
      dsimp only
      cases hta : target.active with
      | false => rfl
      | true  =>
        cases active_of_allowed ht hta with
        | inl hready => cases hreg.symm.trans (he.ready hready).left
        | inr hact   =>
          cases hh₀.symm.trans hh₁
          cases hin.symm.trans (hs₀ ▸ hact)
  case buried =>
    intro j h' hh hd c hc hreg
    have ⟨h, hh₁, he'⟩ := of_update hh
    subst he'
    have hchild : ∃ hc, w.handles c = some hc ∧ hc.state = .destroyed := by
      split at hd
      case isFalse hj =>
        rw [if_neg hj] at hc
        exact hi.buried j h hh₁ hd c hc hreg
      case isTrue hj  =>
        rw [if_pos hj] at hc
        exact (he.destroyed hd).right h (hj ▸ hh₁) c hc hreg
    have ⟨hc, hhc, hsc⟩ := hchild
    refine ⟨_, update_some hhc, ?_⟩
    rw [if_neg ((hstate hhc).resolve_left (not_not.mpr hsc))]
    exact hsc
  case admitted =>
    intro j ha
    have ⟨hreg, h, hh, hd, hc⟩ := hi.admitted j ha
    refine ⟨hreg, _, update_some hh, ?_⟩
    split
    case isFalse   => exact ⟨hd, hc⟩
    case isTrue hj =>
      refine ⟨fun htd => ?_, hnc⟩
      exact (he.destroyed htd).left.left (hj ▸ ha)
  case stopTask =>
    intro j h' t hh hst
    have ⟨h, hh₁, he⟩ := of_update hh
    subst he
    have ⟨hp, hr⟩ := hi.stopTask j h t hh₁ (by split at hst <;> exact hst)
    refine ⟨?_, hr⟩
    split
    case isFalse   => exact hp
    case isTrue hj =>
      subst hj
      cases hh₀.symm.trans hh₁
      exact (leads_allowed ht).past (hs₀ ▸ hp)
  case destroyTask =>
    intro j h' t hh hdt
    have ⟨h, hh₁, he⟩ := of_update hh
    subst he
    exact hi.destroyTask j h t hh₁ (by split at hdt <;> exact hdt)

end Operations
end RuntimeHost
