import BridleModel.Runtime.Theorems.HostSteps

namespace RuntimeHost

variable {w w' : World} {id j c : String} {h h' : Handle} {p q t : Nat} {free : List Lock} {lock : Lock}
  {request : Request} {capabilities : Capabilities} {code : Code} {r : Except Error Unit} {parent : Option String}

section Tasks

theorem evolves_addTask (hi : Inv w) : Evolves w (w.addTask code) where
  handles _ h hh  := ⟨h, hh, .refl⟩
  closed _ hc     := ⟨hc.left, fun _ _ hh hh' => Option.some.inj (hh'.symm.trans hh) ▸ rfl⟩
  removed _ _ hr  := hr
  tasks t code r ht := by
    have hne : t ≠ w.next := by
      intro he
      cases (hi.fresh t (he ▸ Nat.le_refl _)).symm.trans ht
    exact ⟨r, (Function.update_of_ne hne ..).trans ht, fun _ hv => hv⟩

theorem rely_addTask (hi : Inv w) : Rely q w (w.addTask code) where
  evolves     := evolves_addTask hi
  own code h  := by
    have hne : q ≠ w.next := by
      intro he
      cases (hi.fresh q (he ▸ Nat.le_refl _)).symm.trans h
    exact (Function.update_of_ne hne ..).trans h
  held _ h    := h
  locks _ _ _ := protected_of_eq rfl rfl rfl rfl fun _ => rfl

theorem Inv.addTask (hi : Inv w) (hk : w.Known code) : Inv (w.addTask code) := by
  have he : Evolves w (w.addTask code) := evolves_addTask hi
  refine { hi with fresh := ?fresh, stopTask := ?stopTask, destroyTask := ?destroyTask, promised := ?promised, known := ?known }
  case fresh =>
    intro t ht
    have hne : t ≠ w.next := by
      intro he
      rw [he, World.addTask] at ht
      exact absurd ht (by simp)
    exact (Function.update_of_ne hne ..).trans (hi.fresh t (Nat.le_of_succ_le ht))
  case stopTask =>
    intro j h t hh ht
    have ⟨hp, r, hr⟩ := hi.stopTask j h t hh ht
    have ⟨r', hr', _⟩ := he.tasks t _ r hr
    exact ⟨hp, r', hr'⟩
  case destroyTask =>
    intro j h t hh ht
    have ⟨r, hr⟩ := hi.destroyTask j h t hh ht
    have ⟨r', hr', _⟩ := he.tasks t _ r hr
    exact ⟨r', hr'⟩
  case promised =>
    intro t code' r ht
    by_cases hn : t = w.next
    case pos =>
      subst hn
      simp [World.addTask] at ht
    case neg => exact he.promise (hi.promised t code' r ((Function.update_of_ne hn ..).symm.trans ht))
  case known =>
    intro t code' r ht
    by_cases hn : t = w.next
    case pos =>
      subst hn
      rw [World.addTask] at ht
      simp only [Function.update_self, Option.some.injEq, Task.mk.injEq] at ht
      exact he.known (ht.left ▸ hk)
    case neg => exact he.known (hi.known t code' r ((Function.update_of_ne hn ..).symm.trans ht))

theorem evolves_finish (ht : w.tasks p = some ⟨code, none⟩) : Evolves w (w.finish p r) where
  handles _ h hh    := ⟨h, hh, .refl⟩
  closed _ hc       := ⟨hc.left, fun _ _ hh hh' => Option.some.inj (hh'.symm.trans hh) ▸ rfl⟩
  removed _ _ hr    := hr
  tasks t code' r' h := by
    by_cases hp : t = p
    case pos =>
      subst hp
      cases ht.symm.trans h
      exact ⟨some r, by simp [World.finish, ht], nofun⟩
    case neg => exact ⟨r', (Function.update_of_ne hp ..).trans h, fun _ hv => hv⟩

theorem rely_finish (ht : w.tasks p = some ⟨code, none⟩) (hq : q ≠ p) : Rely q w (w.finish p r) where
  evolves     := evolves_finish ht
  own _ h     := (Function.update_of_ne hq ..).trans h
  held _ h    := h
  locks _ _ _ := protected_of_eq rfl rfl rfl rfl fun _ => rfl

theorem Inv.finish (hi : Inv w) (ht : w.tasks p = some ⟨code, none⟩) (hr : w.Promise code r) : Inv (w.finish p r) := by
  have he := evolves_finish (r := r) ht
  refine { hi with fresh := ?fresh, stopTask := ?stopTask, destroyTask := ?destroyTask, promised := ?promised, known := ?known }
  case fresh =>
    intro t hn
    have hne : t ≠ p := by
      intro he
      cases (hi.fresh t hn).symm.trans (he ▸ ht)
    exact (Function.update_of_ne hne ..).trans (hi.fresh t hn)
  case stopTask =>
    intro j h t hh hst
    have ⟨hp, r, hr⟩ := hi.stopTask j h t hh hst
    have ⟨r', hr', _⟩ := he.tasks t _ r hr
    exact ⟨hp, r', hr'⟩
  case destroyTask =>
    intro j h t hh hdt
    have ⟨r, hr⟩ := hi.destroyTask j h t hh hdt
    have ⟨r', hr', _⟩ := he.tasks t _ r hr
    exact ⟨r', hr'⟩
  case promised =>
    intro t code' r' h
    by_cases hp : t = p
    case pos =>
      subst hp
      simp only [World.finish, ht, Function.update_self, Option.map_some, Option.some.injEq, Task.mk.injEq] at h
      exact he.promise (h.left ▸ h.right ▸ hr)
    case neg => exact he.promise (hi.promised t code' r' ((Function.update_of_ne hp ..).symm.trans h))
  case known =>
    intro t code' r' h
    by_cases hp : t = p
    case pos =>
      subst hp
      simp only [World.finish, ht, Function.update_self, Option.map_some, Option.some.injEq, Task.mk.injEq] at h
      exact he.known (h.left ▸ hi.known t code none ht)
    case neg => exact he.known (hi.known t code' r' ((Function.update_of_ne hp ..).symm.trans h))

end Tasks

section Admission

theorem active_of_parentActive (h : parentActive parent w) (hp : parent = some id) :
    ∃ h, w.handles id = some h ∧ h.state.active := by
  subst hp
  simp only [parentActive, Option.all_some, World.stateOf, Option.any_map, Option.any_eq_true] at h
  obtain ⟨h, hh, ha⟩ := h
  exact ⟨h, hh, ha⟩

theorem evolves_accept (ha : parentActive parent w) : Evolves w (w.accept parent) := by
  refine evolves_of_eq rfl rfl rfl fun id hc hp => ?_
  have ⟨_, h, hh, hpast⟩ := hc
  have ⟨h', hh', hact⟩ := active_of_parentActive ha hp
  cases hh.symm.trans hh'
  cases (not_active_of_past hpast).symm.trans hact

theorem rely_accept (ha : parentActive parent w) (hl : w.locks .create = some q → .create ∈ free) :
    RelyBut free q w (w.accept parent) where
  evolves       := evolves_accept ha
  own _ h       := h
  held _ h      := h
  locks _ hf h  := protected_of_eq rfl rfl rfl rfl fun hc => absurd (hc ▸ hl (hc ▸ h)) hf

theorem Inv.accept (hi : Inv w) (ha : parentActive parent w) (hl : w.locks .create = some p) : Inv (w.accept parent) := by
  refine { hi with admitted := ?admitted, unlocked := ?unlocked, promised := ?promised, known := ?known }
  · intro id hp
    have ⟨h, hh, hact⟩ := active_of_parentActive ha hp
    exact ⟨hi.active id h hh hact, h, hh, ne_of_active hact⟩
  · intro hn
    cases hl.symm.trans hn
  · exact fun t code r ht => (evolves_accept ha).promise (hi.promised t code r ht)
  · exact fun t code r ht => (evolves_accept ha).known (hi.known t code r ht)

end Admission

section Removal

-- What `remove` needs
structure World.Spent (w : World) (id : String) : Prop where
  admitted : w.admitted ≠ some id
  handle   : ∃ h, w.handles id = some h ∧ h.state.active = false ∧ (h.state = .destroyed ∨ h.children = [])

theorem evolves_remove : Evolves w (w.remove id) where
  handles _ h hh  := ⟨h, hh, .refl⟩
  closed _ hc     := ⟨hc.left, fun _ _ hh hh' => Option.some.inj (hh'.symm.trans hh) ▸ rfl⟩
  removed j _ hr  := by
    by_cases hj : j = id
    case pos => exact hj ▸ Function.update_self ..
    case neg => exact (Function.update_of_ne hj ..).trans hr
  tasks _ _ r ht  := ⟨r, ht, fun _ hv => hv⟩

theorem rely_remove (hl : w.locks .create = some q → .create ∈ free) : RelyBut free q w (w.remove id) where
  evolves      := evolves_remove
  own _ h      := h
  held _ h     := h
  locks l hf h := by
    cases l with
    | create       => exact absurd (hl h) hf
    | transition j => exact fun h' hh => ⟨rfl, h', hh, rfl⟩
    | stop j       => trivial

theorem Inv.remove (hi : Inv w) (hs : w.Spent id) : Inv (w.remove id) := by
  have ⟨h₀, hh₀, hin, hch⟩ := hs.handle
  have hreg : ∀ {j}, (w.remove id).registered j → w.registered j ∧ j ≠ id := by
    intro j hj
    by_cases he : j = id
    case pos =>
      subst he
      rw [World.remove] at hj
      simp only [Function.update_self] at hj
      cases hj
    case neg => exact ⟨(Function.update_of_ne he ..).symm.trans hj, he⟩
  refine {
    recorded := hi.recorded, child := hi.child, parent := hi.parent, unlocked := hi.unlocked, fresh := hi.fresh,
    stopTask := hi.stopTask, destroyTask := hi.destroyTask, registered := fun j hj => hi.registered j (hreg hj).left,
    singleton := ?singleton, active := ?active, removed := ?removed, buried := ?buried, admitted := ?admitted, promised := ?promised, known := ?known }
  case singleton =>
    intro j h key hh hr hd hk
    have ⟨hr, hne⟩ := hreg hr
    have hsing := hi.singleton j h key hh hr hd hk
    cases hk' : (w.handles id).bind (·.spec.key) with
    | none      => simpa only [World.remove, hk'] using hsing
    | some key' =>
      simp only [World.remove, hk']
      split
      case isFalse   => exact hsing
      case isTrue he =>
        have hkey : key ≠ key' := by
          intro he'
          subst he'
          exact hne (Option.some.inj (hsing.symm.trans he))
        exact (Function.update_of_ne hkey ..).trans hsing
  case active =>
    intro j h hh ha
    have hne : j ≠ id := by
      intro he
      subst he
      cases hh.symm.trans hh₀
      cases hin.symm.trans ha
    exact (Function.update_of_ne hne ..).trans (hi.active j h hh ha)
  case removed =>
    intro j h hh hr
    by_cases hj : j = id
    case pos =>
      subst hj
      cases hh.symm.trans hh₀
      exact hch.imp (fun hd => hd) fun hc => ⟨hin, hc⟩
    case neg => exact hi.removed j h hh ((Function.update_of_ne hj ..).symm.trans hr)
  case buried   => exact fun j h hh hd c hc hr => hi.buried j h hh hd c hc (hreg hr).left
  case admitted =>
    intro j ha
    have ⟨hr, hh⟩ := hi.admitted j ha
    have hne : j ≠ id := fun he => hs.admitted (he ▸ ha)
    exact ⟨(Function.update_of_ne hne ..).trans hr, hh⟩
  case promised => exact fun t code r ht => evolves_remove.promise (hi.promised t code r ht)
  case known    => exact fun t code r ht => evolves_remove.known (hi.known t code r ht)

end Removal

section Registration

-- What `register` needs
structure World.Registering (w : World) (id : String) (request : Request) (capabilities : Capabilities) (p : Nat) : Prop where
  locked   : w.locks .create = some p
  absent   : w.handles id = none
  recorded : w.records id = some .creating
  admitted : w.admitted = request.spec.parentId
  parent   : ∀ j h, request.spec.parentId = some j → w.handles j = some h → capabilities.Within h.capabilities
  alone    : existing? request.spec.key w = none

-- The handles after the registration: the new one, and the others, of which the parent has one child more
theorem register_self : (w.register id request capabilities).handles id = some (World.newHandle request capabilities) :=
  Function.update_self ..

theorem register_of_ne (hj : j ≠ id) : (w.register id request capabilities).handles j =
    (w.handles j).map fun h => if request.spec.parentId = some j then World.addChild id h else h := by
  rw [World.register]
  simp only [Function.update_of_ne hj]
  cases hp : request.spec.parentId with
  | none        => simp
  | some parent =>
    by_cases hjp : j = parent
    case pos =>
      subst hjp
      simp [World.updateHandle]
    case neg =>
      have hn : ¬parent = j := fun h => hjp h.symm
      simp [World.updateHandle, Function.update_of_ne hjp, hn]

def withChild (request : Request) (id j : String) (h : Handle) : Handle :=
  if request.spec.parentId = some j then World.addChild id h else h

theorem withChild_state : (withChild request id j h).state = h.state := by
  unfold withChild
  split <;> rfl

theorem withChild_rest : (withChild request id j h).spec = h.spec ∧
    (withChild request id j h).capabilities = h.capabilities ∧ (withChild request id j h).task = h.task ∧
    (withChild request id j h).closed = h.closed ∧ (withChild request id j h).stopTask = h.stopTask ∧
    (withChild request id j h).destroyTask = h.destroyTask := by
  unfold withChild
  split <;> exact ⟨rfl, rfl, rfl, rfl, rfl, rfl⟩

theorem mem_withChild : c ∈ (withChild request id j h).children ↔
    c ∈ h.children ∨ request.spec.parentId = some j ∧ c = id := by
  unfold withChild
  split
  case isTrue hp  => simp [World.addChild, hp]
  case isFalse hp => simp [hp]

theorem register_some (habsent : w.handles id = none) (hh : w.handles j = some h) :
    (w.register id request capabilities).handles j = some (withChild request id j h) := by
  have hne : j ≠ id := by
    intro he
    cases habsent.symm.trans (he ▸ hh)
  rw [register_of_ne hne, hh]
  rfl

theorem of_register (hh : (w.register id request capabilities).handles j = some h') :
    j = id ∧ h' = World.newHandle request capabilities ∨
    j ≠ id ∧ ∃ h, w.handles j = some h ∧ h' = withChild request id j h := by
  by_cases hj : j = id
  case pos =>
    subst hj
    exact .inl ⟨rfl, (Option.some.inj (register_self.symm.trans hh)).symm⟩
  case neg =>
    rw [register_of_ne hj, Option.map_eq_some_iff] at hh
    have ⟨h, hh, he⟩ := hh
    exact .inr ⟨hj, h, hh, he.symm⟩

theorem World.Registering.not_closed (hr : w.Registering id request capabilities p)
    (hp : request.spec.parentId = some j) : ¬w.Closed j :=
  fun hc => hc.left (hr.admitted.trans hp)

theorem evolves_register (hr : w.Registering id request capabilities p) :
    Evolves w (w.register id request capabilities) where
  handles j h hh  := by
    refine ⟨_, register_some hr.absent hh, ?_⟩
    have ⟨hsp, hca, hta, hcl, _⟩ := @withChild_rest id j h request
    exact {
      spec         := hsp
      capabilities := hca
      state        := withChild_state.symm ▸ leads_refl
      children     := fun c hc => mem_withChild.mpr (.inl hc)
      task         := fun ht => hta.symm ▸ ht
      closed       := fun hc => hcl.symm ▸ hc
    }
  closed j hc     := by
    refine ⟨hc.left, fun h h' hh hh' => ?_⟩
    cases (register_some hr.absent hh).symm.trans hh'
    rw [withChild, if_neg fun hp => hr.not_closed hp hc]
  removed j hh hg := by
    have hne : j ≠ id := by
      intro he
      rw [he, hr.absent] at hh
      cases hh
    exact (Function.update_of_ne hne ..).trans hg
  tasks _ _ r ht  := ⟨r, ht, fun _ hv => hv⟩

theorem rely_register (hr : w.Registering id request capabilities p) (hl : w.locks .create = some q → .create ∈ free) :
    RelyBut free q w (w.register id request capabilities) where
  evolves      := evolves_register hr
  own _ h      := h
  held _ h     := h
  locks l hf h := by
    cases l with
    | create       => exact absurd (hl h) hf
    | transition j => exact fun h' hh => ⟨rfl, _, register_some hr.absent hh, withChild_state⟩
    | stop j       => trivial

theorem Inv.register (hi : Inv w) (hr : w.Registering id request capabilities p) :
    Inv (w.register id request capabilities) := by
  have hev := evolves_register hr
  have hreg : ∀ {j}, j ≠ id → (w.register id request capabilities).registered j = w.registered j :=
    fun hj => Function.update_of_ne hj ..
  have hparent : ∀ {j}, request.spec.parentId = some j → w.registered j ∧
      ∃ h, w.handles j = some h ∧ h.state ≠ .destroyed ∧ h.state ≠ .creating :=
    fun hp => hi.admitted _ (hr.admitted.trans hp)
  constructor
  case unlocked => exact hi.unlocked
  case fresh    => exact hi.fresh
  case promised => exact fun t code r ht => hev.promise (hi.promised t code r ht)
  case known    => exact fun t code r ht => hev.known (hi.known t code r ht)
  case recorded =>
    intro j h' hh
    cases of_register hh with
    | inl hnew =>
      obtain ⟨rfl, rfl⟩ := hnew
      exact ⟨_, hr.recorded, .inl rfl⟩
    | inr hold =>
      have ⟨_, h, hh, he⟩ := hold
      rw [he, withChild_state]
      exact hi.recorded j h hh
  case registered =>
    intro j hj
    by_cases he : j = id
    case pos => exact he ▸ register_self ▸ rfl
    case neg => exact hev.isSome (hi.registered j (hreg he ▸ hj))
  case singleton =>
    intro j h' key hh hj hd hk
    have hother : ∀ h, w.handles j = some h → w.registered j → h.state ≠ .destroyed → h.spec.key = some key →
        request.spec.key ≠ some key := by
      intro h hh hj hd hk he
      have hs := hi.singleton j h key hh hj hd hk
      have hn := hr.alone
      rw [he] at hn
      simp [existing?, hs, hh, hd] at hn
    cases of_register hh with
    | inl hnew =>
      obtain ⟨rfl, rfl⟩ := hnew
      have hk' : request.spec.key = some key := hk
      simp [World.register, hk']
    | inr hold =>
      have ⟨hne, h, hh₁, he⟩ := hold
      subst he
      rw [hreg hne] at hj
      rw [withChild_state] at hd
      rw [withChild_rest.left] at hk
      have hs := hi.singleton j h key hh₁ hj hd hk
      have hk' := hother h hh₁ hj hd hk
      cases hrk : request.spec.key with
      | none      => simpa only [World.register, hrk] using hs
      | some key' =>
        have hne : key ≠ key' := fun he => hk' (he ▸ hrk)
        simp only [World.register, hrk]
        exact (Function.update_of_ne hne ..).trans hs
  case child =>
    intro j h' hh c hc
    cases of_register hh with
    | inl hnew =>
      obtain ⟨rfl, rfl⟩ := hnew
      cases hc
    | inr hold =>
      have ⟨_, h, hh₁, he⟩ := hold
      subst he
      cases mem_withChild.mp hc with
      | inl hc =>
        have ⟨hc, hhc⟩ := hi.child j h hh₁ c hc
        exact ⟨_, register_some hr.absent hhc⟩
      | inr hc => exact ⟨World.newHandle request capabilities, hc.right ▸ register_self⟩
  case parent =>
    intro c hc j hh hp
    cases of_register hh with
    | inl hnew =>
      obtain ⟨rfl, rfl⟩ := hnew
      have hp' : request.spec.parentId = some j := hp
      have ⟨_, h, hh, _⟩ := hparent hp'
      have ⟨_, hcap, _⟩ := @withChild_rest c j h request
      exact ⟨_, register_some hr.absent hh, mem_withChild.mpr (.inr ⟨hp', rfl⟩), hcap ▸ hr.parent j h hp' hh⟩
    | inr hold =>
      have ⟨_, hc, hhc, he⟩ := hold
      subst he
      rw [withChild_rest.left] at hp
      have ⟨h, hh, hm, hw⟩ := hi.parent c hc j hhc hp
      refine ⟨_, register_some hr.absent hh, mem_withChild.mpr (.inl hm), ?_⟩
      rw [withChild_rest.right.left, withChild_rest.right.left]
      exact hw
  case active =>
    intro j h' hh ha
    cases of_register hh with
    | inl hnew =>
      obtain ⟨rfl, rfl⟩ := hnew
      cases ha
    | inr hold =>
      have ⟨hne, h, hh, he⟩ := hold
      rw [he, withChild_state] at ha
      exact (hreg hne).trans (hi.active j h hh ha)
  case removed =>
    intro j h' hh hj
    cases of_register hh with
    | inl hnew =>
      obtain ⟨rfl, rfl⟩ := hnew
      rw [World.register] at hj
      simp at hj
    | inr hold =>
      have ⟨hne, h, hh, he⟩ := hold
      rw [hreg hne] at hj
      have hn : request.spec.parentId ≠ some j := by
        intro hp
        cases hj.symm.trans (hparent hp).left
      rw [he, withChild, if_neg hn]
      exact hi.removed j h hh hj
  case buried =>
    intro j h' hh hd c hc hreg'
    cases of_register hh with
    | inl hnew =>
      obtain ⟨rfl, rfl⟩ := hnew
      cases hd
    | inr hold =>
      have ⟨_, h, hh, he⟩ := hold
      rw [he, withChild_state] at hd
      have hn : request.spec.parentId ≠ some j := by
        intro hp
        have ⟨_, h₁, hh₁, hnd, _⟩ := hparent hp
        cases hh.symm.trans hh₁
        exact hnd hd
      rw [he, withChild, if_neg hn] at hc
      have ⟨hc', hhc'⟩ := hi.child j h hh c hc
      have hne : c ≠ id := by
        intro he
        cases hr.absent.symm.trans (he ▸ hhc')
      have ⟨hc₁, hhc, hsc⟩ := hi.buried j h hh hd c hc (hreg hne ▸ hreg')
      exact ⟨_, register_some hr.absent hhc, withChild_state.trans hsc⟩
  case admitted =>
    intro j ha
    have ⟨hj, h, hh, hd, hc⟩ := hi.admitted j ha
    have hne : j ≠ id := by
      intro he
      cases hr.absent.symm.trans (he ▸ hh)
    exact ⟨(hreg hne).trans hj, _, register_some hr.absent hh, withChild_state.symm ▸ hd, withChild_state.symm ▸ hc⟩
  case stopTask =>
    intro j h' t hh ht
    cases of_register hh with
    | inl hnew =>
      obtain ⟨rfl, rfl⟩ := hnew
      cases ht
    | inr hold =>
      have ⟨_, h, hh, he⟩ := hold
      have ⟨_, _, _, _, hst, _⟩ := @withChild_rest id j h request
      rw [he, withChild_state]
      exact hi.stopTask j h t hh (hst ▸ he ▸ ht)
  case destroyTask =>
    intro j h' t hh ht
    cases of_register hh with
    | inl hnew =>
      obtain ⟨rfl, rfl⟩ := hnew
      cases ht
    | inr hold =>
      have ⟨_, h, hh, he⟩ := hold
      have ⟨_, _, _, _, _, hdt⟩ := @withChild_rest id j h request
      exact hi.destroyTask j h t hh (hdt ▸ he ▸ ht)

end Registration
end RuntimeHost
