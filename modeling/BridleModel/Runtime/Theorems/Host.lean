import Mathlib.Data.List.Dedup
import BridleModel.Runtime.Theorems.HostChanges

namespace RuntimeHost

open Coroutine

variable {α : Type} {w w' : World} {id c : String} {h : Handle} {p t : Nat} {free free' : List Lock} {lock : Lock}
  {source target : State} {code : Code} {own : Bool}

section Rules

-- What holds when a call returns, and what holds when it raises
def Either (ok : α → World → Prop) (error : World → Prop) : Except Error α → World → Prop
  | .ok a, w    => ok a w
  | .error _, w => error w

variable {k : Co α} {ok ok' : α → World → Prop} {error error' : World → Prop}

theorem weaken (h : k.Safe Inv Rely p (Either ok error) w) (hok : ∀ a w', Inv w' → ok a w' → ok' a w')
    (herror : ∀ w', error w' → error' w') : k.Safe Inv Rely p (Either ok' error') w := by
  refine h.weaken fun r w' hi hr => ?_
  cases r with
  | ok a    => exact hok a w' hi hr
  | error e => exact herror w' hr

theorem safe_acquire : (acquire lock p).Safe Inv Rely p (Either
    (fun _ w' => w.locks lock ≠ some p ∧ Rely p w w' ∧ w'.locks lock = some p ∧ (lock = .create → w'.admitted = none))
    (Rely p w)) w := by
  refine .wait fun w₁ hr hi choice w₂ r ha => ?_
  cases choice with
  | go =>
    simp only at ha
    split at ha
    case isFalse      => cases ha
    case isTrue hfree =>
      cases ha
      refine ⟨fun q _ => rely_acquire hfree, hi.acquire, ?_, hr.trans (rely_acquire hfree), Function.update_self .., ?_⟩
      · intro hl
        cases hfree.symm.trans (hr.held lock hl)
      · exact fun hc => hi.unlocked (hc ▸ hfree)
  | cancel =>
    cases ha
    exact ⟨fun q _ => .refl, hi, hr⟩
  | drawn  => cases ha
  | fails  => cases ha
  | late   => cases ha

-- The body may count on the lock, and what it does under the lock does not show afterwards.
theorem safe_withLock
    (hbody : ∀ w₁, Inv w₁ → Rely p w w₁ → w₁.locks lock = some p → (lock = .create → w₁.admitted = none) →
      k.Safe Inv Rely p (Either (fun a w₂ => RelyBut (lock :: free) p w₁ w₂ ∧ ok a w₂)
        (RelyBut (lock :: free') p w₁)) w₁)
    (hrelease : ∀ a w₂, Inv w₂ → ok a w₂ → ok a (w₂.release lock)) :
    (withLock lock p k).Safe Inv Rely p (Either (fun a w' => RelyBut free p w w' ∧ ok a w') (RelyBut free' p w)) w := by
  refine safe_acquire.bind ?_ fun _ _ _ hr => hr.weaken
  intro _ w₁ hi ⟨hn, hr, hl, ha⟩
  have hleave : ∀ {free w₂}, RelyBut (lock :: free) p w₁ w₂ → RelyBut free p w (w₂.release lock) := by
    intro free w₂ hr'
    have hne : ∀ {l}, w.locks l = some p → l ≠ lock := fun h he => hn (he ▸ h)
    constructor
    case evolves => exact (hr.evolves.trans hr'.evolves).trans evolves_release
    case own     => exact fun code h => hr'.own code (hr.own code h)
    case held    =>
      intro l h
      exact (Function.update_of_ne (hne h) ..).trans (hr'.held l (hr.held l h))
    case locks   =>
      intro l hf h
      have hf' : l ∉ lock :: free := fun hm => (List.mem_cons.mp hm).elim (hne h) hf
      exact ((hr.locks l nofun h).trans (hr'.locks l hf' (hr.held l h))).trans (protected_release (hne h))
  have hothers : ∀ {free w₂}, RelyBut (lock :: free) p w₁ w₂ → ∀ q, q ≠ p → Rely q w₂ (w₂.release lock) := by
    intro free w₂ hr' q hq
    refine rely_release fun h => hq ?_
    exact Option.some.inj (h.symm.trans (hr'.held lock hl))
  refine (hbody w₁ hi hr hl ha).attempt_bind fun r w₂ hi₂ hr₂ => ?_
  cases r with
  | ok a    =>
    have ⟨hr₂, hok⟩ := hr₂
    exact ⟨hothers hr₂, hi₂.release, hi₂.release, hleave hr₂, hrelease a w₂ hi₂ hok⟩
  | error e => exact ⟨hothers hr₂, hi₂.release, hi₂.release, hleave hr₂⟩

end Rules

section Transition

-- The lock whose state a transition to this state does not keep
def unkept (target : State) : List Lock :=
  if target = .ready then [.create] else []

theorem World.Entering.of_ne (hr : target ≠ .ready) (hd : target ≠ .destroyed) : w.Entering id p target where
  ready h     := absurd h hr
  destroyed h := absurd h hd

theorem World.Entering.of_tomb (hc : w.Closed id) (h : ∀ h, w.handles id = some h → ∀ c ∈ h.children, w.registered c →
    ∃ hc, w.handles c = some hc ∧ hc.state = .destroyed) : w.Entering id p .destroyed where
  ready h     := absurd h (by decide)
  destroyed _ := ⟨hc, h⟩

theorem World.Entering.rely (he : w.Entering id p target) (hi : Inv w) (hr : Rely p w w') : w'.Entering id p target where
  ready ht     := by
    have ⟨hreg, hl⟩ := he.ready ht
    have ⟨hreg', _⟩ := hr.locks .create nofun hl
    exact ⟨hreg' ▸ hreg, hr.held .create hl⟩
  destroyed ht := by
    have ⟨hc, hch⟩ := he.destroyed ht
    refine ⟨hr.evolves.closed' hc, fun h' hh' c hm hreg => ?_⟩
    have ⟨_, h, hh, _⟩ := hc
    rw [(hr.evolves.closed id hc).right h h' hh hh'] at hm
    have ⟨hc₀, hhc₀⟩ := hi.child id h hh c hm
    have hreg₀ : w.registered c := by
      cases hg : w.registered c with
      | true  => rfl
      | false => cases (hr.evolves.removed c (hhc₀ ▸ rfl) hg).symm.trans hreg
    have ⟨hc, hhc, hs⟩ := hch h hh c hm hreg₀
    have ⟨hc', hhc', hg⟩ := hr.evolves.handles c hc hhc
    exact ⟨hc', hhc', (hs ▸ hg.state).destroyed⟩

theorem safe_updateRuntimeState (hl : w.locks (.transition id) = some p) (hs : w.stateOf id = some source)
    (ht : target ∈ source.allowed) : (updateRuntimeState id target).Safe Inv Rely p (Either
      (fun _ w' => ∃ w₁, Inv w₁ ∧ Rely p w w₁ ∧ w' = w₁.setRecord id target)
      (RelyBut [.transition id] p w)) w := by
  refine .wait fun w₁ hr hi choice w₂ r ha => ?_
  have hl₁ := hr.held _ hl
  have hmine : ∀ q, q ≠ p → Rely q w₁ (w₁.setRecord id target) := by
    intro q hq
    refine rely_setRecord fun _ h => ?_
    exact absurd (Option.some.inj (h.symm.trans hl₁)) hq
  have hinv : Inv (w₁.setRecord id target) := by
    refine hi.setRecord fun h₁ hh₁ => .inr ?_
    have ⟨h, hh, hst⟩ := Option.map_eq_some_iff.mp hs
    have ⟨_, h', hh', hst'⟩ := hr.locks _ nofun hl h hh
    cases hh₁.symm.trans hh'
    rw [hst', hst]
    exact ht
  cases choice with
  | go =>
    cases ha
    exact ⟨hmine, hinv, w₁, hi, hr, rfl⟩
  | late =>
    cases ha
    exact ⟨hmine, hinv, hr.weaken.trans (rely_setRecord fun _ _ => List.mem_singleton.mpr rfl)⟩
  | fails =>
    cases ha
    exact ⟨fun q _ => .refl, hi, hr.weaken⟩
  | cancel =>
    cases ha
    exact ⟨fun q _ => .refl, hi, hr.weaken⟩
  | drawn => cases ha

theorem safe_transition (hi : Inv w) (he : w.Entering id p target) :
    (transition p id target).Safe Inv Rely p (Either (fun _ w' => RelyBut (unkept target) p w w' ∧
      ∃ h, w'.handles id = some h ∧ Leads target h.state) (Rely p w)) w := by
  refine safe_withLock ?_ fun _ _ _ h => h
  intro w₁ hi₁ hr₁ hl₁ _
  have he₁ : w₁.Entering id p target := he.rely hi hr₁
  refine .read_bind (fun _ _ => .refl) hi₁ <| .require_bind hi₁ (fun ha => ?_) .refl
  have ⟨source, hs₁, ht⟩ := (Option.any_eq_true ..).mp ha
  have ht : target ∈ source.allowed := of_decide_eq_true ht
  refine (safe_updateRuntimeState hl₁ hs₁ ht).bind ?_ fun _ _ _ hr => hr
  · intro _ w₂ hi₂ ⟨w₃, hi₃, hr₃, hw⟩
    subst hw
    have hl₃ := hr₃.held _ hl₁
    have hs₃ : (w₃.setRecord id target).stateOf id = some source := by
      have ⟨h, hh, hst⟩ := Option.map_eq_some_iff.mp hs₁
      have ⟨_, h', hh', hst'⟩ := hr₃.locks _ nofun hl₁ h hh
      exact Option.map_eq_some_iff.mpr ⟨h', hh', hst'.trans hst⟩
    have he₃ : (w₃.setRecord id target).Entering id p target := by
      have he := he₁.rely hi₁ hr₃
      exact ⟨he.ready, he.destroyed⟩
    have hi₄ : Inv ((w₃.setRecord id target).setState id target) := hi₂.setState hs₃ ht (Function.update_self ..) he₃
    have hrecord : RelyBut (.transition id :: unkept target) p w₁ (w₃.setRecord id target) :=
      hr₃.weaken.trans (rely_setRecord fun _ _ => List.mem_cons_self)
    have hown : RelyBut (.transition id :: unkept target) p w₁ ((w₃.setRecord id target).setState id target) := by
      refine hrecord.trans ?_
      refine rely_setState hs₃ ht (fun _ => List.mem_cons_self) fun hready _ => ?_
      simp [unkept, hready]
    have hothers : ∀ q, q ≠ p → Rely q (w₃.setRecord id target) ((w₃.setRecord id target).setState id target) := by
      intro q hq
      refine rely_setState hs₃ ht (fun h => ?_) fun hready h => ?_
      · exact absurd (Option.some.inj (h.symm.trans hl₃)) hq
      · exact absurd (Option.some.inj (h.symm.trans (he₃.ready hready).right)) hq
    have ⟨h, hh, hst⟩ := Option.map_eq_some_iff.mp hs₃
    refine ⟨hothers, hi₄, hi₄, hown, _, update_some hh, ?_⟩
    rw [if_pos rfl]
    exact leads_refl

end Transition

section Waiting

theorem safe_waitForTask {r : Option (Except Error Unit)} (ht : w.tasks t = some ⟨code, r⟩) :
    (waitForTask t).Safe Inv Rely p (Either (fun _ w' => Rely p w w' ∧ w'.Promise code (.ok ())) (Rely p w)) w := by
  refine .wait fun w₁ hr hi choice w₂ r ha => ?_
  cases choice with
  | go =>
    have ⟨r', ht', _⟩ := hr.evolves.tasks t code _ ht
    simp only [ht', Option.bind_some, Option.map_eq_some_iff] at ha
    have ⟨result, hres, he⟩ := ha
    cases he
    refine ⟨fun q _ => .refl, hi, ?_⟩
    cases r with
    | error e => exact hr
    | ok u    => exact ⟨hr, hi.promised t code _ (hres ▸ ht')⟩
  | cancel =>
    cases ha
    exact ⟨fun q _ => .refl, hi, hr⟩
  | drawn  => cases ha
  | fails  => cases ha
  | late   => cases ha

theorem safe_waitUntil {due : World → Bool} :
    (waitUntil due).Safe Inv Rely p (Either (fun _ w' => Rely p w w' ∧ due w') (Rely p w)) w := by
  refine .wait fun w₁ hr hi choice w₂ r ha => ?_
  cases choice with
  | go =>
    simp only at ha
    split at ha
    case isFalse    => cases ha
    case isTrue hd =>
      cases ha
      exact ⟨fun q _ => .refl, hi, hr, hd⟩
  | cancel =>
    cases ha
    exact ⟨fun q _ => .refl, hi, hr⟩
  | drawn  => cases ha
  | fails  => cases ha
  | late   => cases ha

theorem safe_cancelTask (hi : Inv w) (hh : (w.handles id).isSome) :
    (cancelTask id).Safe Inv Rely p (Either (fun _ w' => Rely p w w' ∧
      ∃ h, w'.handles id = some h ∧ h.task ≠ some false) (Rely p w)) w := by
  have hdone : ∀ {w' : World}, (w'.handles id).isSome → (w'.handles id).any (·.task = some false) = false →
      ∃ h, w'.handles id = some h ∧ h.task ≠ some false := by
    intro w' hh hn
    have ⟨h, hh⟩ := Option.isSome_iff_exists.mp hh
    rw [hh, Option.any_some] at hn
    exact ⟨h, hh, of_decide_eq_false hn⟩
  refine .read_bind (fun _ _ => .refl) hi ?_
  split
  case isTrue     =>
    refine weaken safe_waitUntil (fun _ w' _ hd => ?_) fun _ hr => hr
    exact ⟨hd.left, hdone (hd.left.evolves.isSome hh) (by simpa using hd.right)⟩
  case isFalse hn => exact .pure hi ⟨.refl, hdone hh (Bool.eq_false_iff.mpr hn)⟩

theorem safe_closeResources (hi : Inv w) :
    (closeResources id).Safe Inv Rely p (Either (fun _ w' => Rely p w w' ∧
      ∃ h, w'.handles id = some h ∧ h.closed) (Rely p w)) w := by
  have hquiet : ∀ h, w.handles id = some h → Quiet h { h with closing := true } :=
    fun _ _ => ⟨rfl, rfl, rfl, rfl, fun ht => ht, fun hc => hc⟩
  have hi' : Inv (w.updateHandle id ({ · with closing := true })) :=
    hi.update hquiet (fun h t hh ht => hi.stopTask id h t hh ht) (fun h t hh ht => hi.destroyTask id h t hh ht)
  have hrely : ∀ q, Rely q w (w.updateHandle id ({ · with closing := true })) := fun q => rely_update hquiet
  refine .read_bind (fun _ _ => .refl) hi ?_
  split
  case isTrue     =>
    refine .modify_bind (fun q _ => hrely q) hi' ?_
    refine weaken safe_waitUntil (fun _ w' _ hd => ?_) fun _ => (hrely p).trans
    have ⟨h, hh, hc⟩ := (Option.any_eq_true ..).mp hd.right
    exact ⟨(hrely p).trans hd.left, h, hh, hc⟩
  case isFalse hn =>
    have hc : (w.handles id).any (·.closed) = true := by simpa using hn
    have ⟨h, hh, hc⟩ := (Option.any_eq_true ..).mp hc
    exact .pure hi ⟨.refl, h, hh, hc⟩

end Waiting

section Stop

-- The runtime takes no children any more, and a task stops it unless it has ended.
def World.Stopped (w : World) (id : String) (task : Option Nat) : Prop :=
  w.Closed id ∧
    match task with
    | none   => ∃ h, w.handles id = some h ∧ h.state.settled
    | some t => ∃ r, w.tasks t = some ⟨.finishStop id, r⟩

theorem Evolves.stopped {task : Option Nat} (he : Evolves w w') (h : w.Stopped id task) : w'.Stopped id task := by
  have ⟨hc, ht⟩ := h
  refine ⟨he.closed' hc, ?_⟩
  cases task with
  | none   =>
    have ⟨h, hh, hs⟩ := ht
    have ⟨h', hh', hg⟩ := he.handles id h hh
    exact ⟨h', hh', hg.state.settled hs⟩
  | some t =>
    have ⟨r, ht⟩ := ht
    have ⟨r', ht', _⟩ := he.tasks t _ r ht
    exact ⟨r', ht'⟩

theorem safe_spawnStop (hi : Inv w) (hh : w.handles id = some h) (hp : h.state.past) :
    (spawnStop id).Safe Inv Rely p (Either (fun t w' => Rely p w w' ∧ ∃ r, w'.tasks t = some ⟨.finishStop id, r⟩)
      (Rely p w)) w := by
  have hi' : Inv (w.addTask (.finishStop id)) := hi.addTask ⟨h, hh, hp⟩
  have hquiet : ∀ h, (w.addTask (.finishStop id)).handles id = some h → Quiet h { h with stopTask := some w.next } :=
    fun _ _ => ⟨rfl, rfl, rfl, rfl, fun ht => ht, fun hc => hc⟩
  have htask : (w.addTask (.finishStop id)).tasks w.next = some ⟨.finishStop id, none⟩ := Function.update_self ..
  have hrely : ∀ q, Rely q w ((w.addTask (.finishStop id)).updateHandle id ({ · with stopTask := some w.next })) :=
    fun q => (rely_addTask hi).trans (rely_update hquiet)
  have hinv : Inv ((w.addTask (.finishStop id)).updateHandle id ({ · with stopTask := some w.next })) := by
    refine hi'.update hquiet (fun h' t hh' ht => ?_) fun h' t hh' ht => hi'.destroyTask id h' t hh' ht
    cases ht
    cases hh.symm.trans hh'
    exact ⟨hp, none, htask⟩
  exact .act (fun q _ => hrely q) hinv ⟨hrely p, none, htask⟩

theorem safe_liveStop (hi : Inv w) (hh : w.handles id = some h) :
    (liveStop id).Safe Inv Rely p (Either (fun task w' => Rely p w w' ∧ w'.admitted = w.admitted ∧
      (∃ h', w'.handles id = some h' ∧ h'.state = h.state) ∧
      ∀ t, task = some t → h.state.past ∧ ∃ r, w'.tasks t = some ⟨.finishStop id, r⟩) (fun _ => False)) w := by
  have hlive : ∀ t, ((w.handles id).bind (·.stopTask)).filter (!w.needsRetry ·) = some t →
      h.state.past ∧ ∃ r, w.tasks t = some ⟨.finishStop id, r⟩ := by
    intro t ht
    have ⟨ht, _⟩ := Option.filter_eq_some_iff.mp ht
    rw [hh, Option.bind_some] at ht
    exact hi.stopTask id h t hh ht
  have hquiet : ∀ task h, w.handles id = some h → Quiet h { h with stopTask := task } :=
    fun _ _ _ => ⟨rfl, rfl, rfl, rfl, fun ht => ht, fun hc => hc⟩
  refine .act (fun q _ => rely_update (hquiet _)) ?_ ⟨rely_update (hquiet _), rfl, ⟨_, update_some hh, ?_⟩, hlive⟩
  · refine hi.update (hquiet _) (fun h' t hh' ht => ?_) fun h' t hh' ht => hi.destroyTask id h' t hh' ht
    cases hh.symm.trans hh'
    exact hlive t ht
  · rw [if_pos rfl]

theorem safe_stopLocked (hi : Inv w) (hh : (w.handles id).isSome) (ha : w.admitted = none)
    (hl : w.locks .create = some p) :
    (stopLocked p id).Safe Inv Rely p (Either (fun task w' => Rely p w w' ∧ w'.Stopped id task) (Rely p w)) w := by
  obtain ⟨h, hh⟩ := Option.isSome_iff_exists.mp hh
  have hs : w.stateOf id = some h.state := by simp [World.stateOf, hh]
  have hopen : ∀ {w'}, Rely p w w' → w'.admitted ≠ some id := by
    intro w' hr
    obtain ⟨_, _, ha', _⟩ := hr.locks .create List.not_mem_nil hl
    rw [ha', ha]
    exact (Option.some_ne_none id).symm
  refine .read_bind (fun _ _ => .refl) hi ?_
  rw [hs, Option.any_some]
  split
  case isTrue hst =>
    exact .pure hi ⟨.refl, ⟨hopen .refl, h, hh, past_of_settled hst⟩, h, hh, hst⟩
  case isFalse =>
    refine (safe_liveStop hi hh).bind ?_ fun _ _ _ => False.elim
    rintro task w₁ hi₁ ⟨hr₁, _, ⟨h₁, hh₁, hs₁⟩, htask⟩
    have hpast : ∀ {w₂ h₂ t r}, Rely p w w₂ → w₂.handles id = some h₂ → h₂.state.past →
        w₂.tasks t = some ⟨.finishStop id, r⟩ → w₂.Stopped id (some t) :=
      fun hr hh hp ht => ⟨⟨hopen hr, _, hh, hp⟩, _, ht⟩
    have hspawn : ∀ w₂ h₂, Inv w₂ → Rely p w w₂ → w₂.handles id = some h₂ → h₂.state.past →
        (spawnStop id >>= fun t => pure (some t)).Safe Inv Rely p
          (Either (fun task w' => Rely p w w' ∧ w'.Stopped id task) (Rely p w)) w₂ := by
      intro w₂ h₂ hi₂ hr₂ hh₂ hp₂
      refine (safe_spawnStop hi₂ hh₂ hp₂).bind ?_ fun _ _ _ hr => hr₂.trans hr
      rintro t w₃ hi₃ ⟨hr₃, r, ht⟩
      obtain ⟨h₃, hh₃, hg₃⟩ := hr₃.evolves.handles id h₂ hh₂
      exact .pure hi₃ ⟨hr₂.trans hr₃, hpast (hr₂.trans hr₃) hh₃ (hg₃.state.past hp₂) ht⟩
    cases task with
    | some t =>
      obtain ⟨hp, r, ht⟩ := htask t rfl
      exact .pure hi₁ ⟨hr₁, hpast hr₁ hh₁ (hs₁ ▸ hp) ht⟩
    | none   =>
      dsimp only
      split
      case isTrue     =>
        have he : w₁.Entering id p .stopping := .of_ne (by decide) (by decide)
        refine (safe_transition hi₁ he).bind ?_ fun _ _ _ hr => hr₁.trans hr
        rintro _ w₂ hi₂ ⟨hr₂, h₂, hh₂, hl₂⟩
        exact hspawn w₂ h₂ hi₂ (hr₁.trans hr₂) hh₂ (hl₂.past rfl)
      case isFalse hn =>
        have hst : h.state = .stopping := Option.some.inj (not_not.mp hn)
        exact hspawn w₁ h₁ hi₁ hr₁ hh₁ (by rw [hs₁, hst]; rfl)

theorem safe_stop (hi : Inv w) (hh : (w.handles id).isSome) :
    (stop p own id).Safe Inv Rely p (Either (fun _ w' => Rely p w w' ∧ w'.Closed id ∧ w'.Promise (.stop id own) (.ok ()))
      (Rely p w)) w := by
  have hlocked : (withLock .create p (withLock (.stop id) p (stopLocked p id))).Safe Inv Rely p
      (Either (fun task w' => Rely p w w' ∧ w'.Stopped id task) (Rely p w)) w := by
    refine safe_withLock (fun w₁ _ hr₁ hl₁ ha₁ => ?_) fun _ _ _ hs => evolves_release.stopped hs
    have hinner : (withLock (.stop id) p (stopLocked p id)).Safe Inv Rely p
        (Either (fun task w' => Rely p w₁ w' ∧ w'.Stopped id task) (Rely p w₁)) w₁ := by
      refine safe_withLock (fun w₂ hi₂ hr₂ _ _ => ?_) fun _ _ _ hs => evolves_release.stopped hs
      have ⟨_, _, ha₂, _⟩ := hr₂.locks .create nofun hl₁
      have hh₂ := hr₂.evolves.isSome (hr₁.evolves.isSome hh)
      exact weaken (safe_stopLocked hi₂ hh₂ (ha₂.trans (ha₁ rfl)) (hr₂.held _ hl₁))
        (fun _ _ _ hr => ⟨hr.left.weaken, hr.right⟩) fun _ => Rely.weaken
    exact weaken hinner (fun _ _ _ hr => ⟨hr.left.weaken, hr.right⟩) fun _ => Rely.weaken
  refine hlocked.bind ?_ fun _ _ _ hr => hr
  intro task w₁ hi₁ ⟨hr₁, hc₁, ht₁⟩
  cases task with
  | none   =>
    have ⟨h₂, hh₂, hs₂⟩ := ht₁
    exact .pure hi₁ ⟨hr₁, hc₁, hc₁, fun _ => ⟨h₂, hh₂, hs₂⟩⟩
  | some t =>
    have ⟨r, ht⟩ := ht₁
    dsimp only
    cases own with
    | true  => exact .pure hi₁ ⟨hr₁, hc₁, hc₁, nofun⟩
    | false =>
      refine weaken (safe_waitForTask ht) (fun _ w₂ _ hr => ?_) fun _ => hr₁.trans
      have ⟨hr₂, h₂, hh₂, hs₂, _⟩ := hr
      have hc₂ := hr₂.evolves.closed' hc₁
      exact ⟨hr₁.trans hr₂, hc₂, hc₂, fun _ => ⟨h₂, hh₂, hs₂⟩⟩

theorem known_children (hi : Inv w) : ∀ c ∈ w.registeredChildren id, (w.handles c).isSome := by
  intro c hc
  unfold World.registeredChildren at hc
  split at hc
  case h_1      => cases hc
  case h_2 h hh =>
    have ⟨hc, hhc⟩ := hi.child id h hh c (List.mem_filter.mp hc).left
    exact hhc ▸ rfl

theorem safe_finishStop (hi : Inv w) (hh : w.handles id = some h) (hp : h.state.past) :
    (finishStop p id).Safe Inv Rely p (Either (fun _ w' => Rely p w w' ∧ w'.Promise (.finishStop id) (.ok ()))
      (Rely p w)) w := by
  refine .read_bind (fun _ _ => .refl) hi ?_
  have hchildren : (inTurn (stop p false) (w.registeredChildren id)).Safe Inv Rely p
      (Either (fun _ w' => Rely p w w') (Rely p w)) w := by
    refine .inTurn (J := fun cs w' => Rely p w w' ∧ ∀ c ∈ cs, (w'.handles c).isSome) hi ⟨.refl, known_children hi⟩
      (fun _ _ hj => hj.left) ?_
    rintro c cs w₁ hi₁ ⟨hr₁, hcs⟩
    obtain ⟨hc, hcs⟩ := List.forall_mem_cons.mp hcs
    refine (safe_stop hi₁ hc).weaken fun r w₂ _ hr => ?_
    cases r with
    | ok u    => exact ⟨hr₁.trans hr.left, fun c' hc' => hr.left.evolves.isSome (hcs c' hc')⟩
    | error e => exact hr₁.trans hr
  refine hchildren.bind ?_ fun _ _ _ hr => hr
  intro _ w₁ hi₁ hr₁
  refine (safe_cancelTask hi₁ (hr₁.evolves.isSome (hh ▸ rfl))).bind ?_ fun _ _ _ hr => hr₁.trans hr
  rintro _ w₂ hi₂ ⟨hr₂, h₂, hh₂, ht₂⟩
  have hr₂ := hr₁.trans hr₂
  refine (safe_closeResources hi₂).bind ?_ fun _ _ _ hr => hr₂.trans hr
  rintro _ w₃ hi₃ ⟨hr₃, h₃, hh₃, hc₃⟩
  have ht₃ : h₃.task ≠ some false := by
    obtain ⟨h, hh, hg⟩ := hr₃.evolves.handles id h₂ hh₂
    cases hh.symm.trans hh₃
    exact hg.task ht₂
  have hr₃ := hr₂.trans hr₃
  refine .read_bind (fun _ _ => .refl) hi₃ ?_
  have hst : w₃.stateOf id = some h₃.state := by simp [World.stateOf, hh₃]
  rw [hst]
  split
  case isTrue     =>
    have he : w₃.Entering id p .completed := .of_ne (by decide) (by decide)
    refine weaken (safe_transition hi₃ he) (fun _ w₄ _ hr => ?_) fun _ => hr₃.trans
    obtain ⟨hr₄, h₄, hh₄, hl₄⟩ := hr
    obtain ⟨h, hh, hg⟩ := RelyBut.evolves hr₄ |>.handles id h₃ hh₃
    cases hh.symm.trans hh₄
    exact ⟨hr₃.trans hr₄, h₄, hh₄, hl₄.settled rfl, hg.task ht₃, hg.closed hc₃⟩
  case isFalse hn =>
    obtain ⟨h', hh', hg⟩ := hr₃.evolves.handles id h hh
    cases hh'.symm.trans hh₃
    have hs₃ := settled_of_past (hg.state.past hp) fun he => hn (congrArg some he)
    exact .pure hi₃ ⟨hr₃, h₃, hh₃, hs₃, ht₃, hc₃⟩

end Stop

section Destroy

theorem safe_destroyLocked (hi : Inv w) (hh : (w.handles id).isSome) :
    (destroyLocked id).Safe Inv Rely p (Either (fun t w' => Rely p w w' ∧ ∃ r, w'.tasks t = some ⟨.finishDestroy id, r⟩)
      (Rely p w)) w := by
  have hquiet : ∀ (task : Option Nat) (w' : World) h, w'.handles id = some h → Quiet h { h with destroyTask := task } :=
    fun _ _ _ _ => ⟨rfl, rfl, rfl, rfl, fun ht => ht, fun hc => hc⟩
  have hlive : ∀ h t, w.handles id = some h →
      ((w.handles id).bind (·.destroyTask)).filter (!w.needsRetry ·) = some t →
      ∃ r, w.tasks t = some ⟨.finishDestroy id, r⟩ := by
    intro h t hh ht
    have ⟨ht, _⟩ := Option.filter_eq_some_iff.mp ht
    rw [hh, Option.bind_some] at ht
    exact hi.destroyTask id h t hh ht
  have hinv := hi.update (hquiet (((w.handles id).bind (·.destroyTask)).filter (!w.needsRetry ·)) w)
    (fun h t hh ht => hi.stopTask id h t hh ht) hlive
  refine .act_bind rfl (fun q _ => rely_update (hquiet _ w)) hinv ?_
  split
  case h_1 t ht =>
    have ⟨h, hh⟩ := Option.isSome_iff_exists.mp hh
    exact .pure hinv ⟨rely_update (hquiet _ w), hlive h t hh ht⟩
  case h_2      =>
    generalize hw : w.updateHandle id _ = w₁ at hinv
    have hr₁ : ∀ q, Rely q w w₁ := fun q => hw ▸ rely_update (hquiet _ w)
    have hinv' : Inv (w₁.addTask (.finishDestroy id)) := hinv.addTask ((hr₁ p).evolves.isSome hh)
    have htask : (w₁.addTask (.finishDestroy id)).tasks w₁.next = some ⟨.finishDestroy id, none⟩ :=
      Function.update_self ..
    have hrely : ∀ q, Rely q w₁ ((w₁.addTask (.finishDestroy id)).updateHandle id ({ · with destroyTask := some w₁.next })) :=
      fun q => (rely_addTask hinv).trans (rely_update (hquiet _ _))
    have hinv'' : Inv ((w₁.addTask (.finishDestroy id)).updateHandle id ({ · with destroyTask := some w₁.next })) := by
      refine hinv'.update (hquiet _ _) (fun h t hh ht => hinv'.stopTask id h t hh ht) fun h t hh ht => ?_
      cases ht
      exact ⟨none, htask⟩
    exact .act (fun q _ => hrely q) hinv'' ⟨(hr₁ p).trans (hrely p), none, htask⟩

theorem safe_destroy (hi : Inv w) (hh : (w.handles id).isSome) :
    (destroy p own id).Safe Inv Rely p (Either (fun _ w' => Rely p w w' ∧ w'.Promise (.destroy id own) (.ok ()))
      (Rely p w)) w := by
  have hlocked : (withLock (.stop id) p (destroyLocked id)).Safe Inv Rely p
      (Either (fun t w' => Rely p w w' ∧ ∃ r, w'.tasks t = some ⟨.finishDestroy id, r⟩) (Rely p w)) w := by
    refine safe_withLock (fun w₁ hi₁ hr₁ _ _ => ?_) fun _ _ _ ht => ht
    exact weaken (safe_destroyLocked hi₁ (hr₁.evolves.isSome hh)) (fun _ _ _ hr => ⟨hr.left.weaken, hr.right⟩)
      fun _ => Rely.weaken
  refine hlocked.bind ?_ fun _ _ _ hr => hr
  intro t w₁ hi₁ ⟨hr₁, r, ht⟩
  cases own with
  | true  => exact .pure hi₁ ⟨hr₁, nofun⟩
  | false =>
    exact weaken (safe_waitForTask ht) (fun _ _ _ hr => ⟨hr₁.trans hr.left, fun _ => hr.right⟩) fun _ => hr₁.trans

-- The runtime takes no children any more, and all of its registered children but these are destroyed.
def World.Tomb (w : World) (id : String) (cs : List String) : Prop :=
  w.Closed id ∧ ∀ h, w.handles id = some h → ∀ c ∈ h.children, w.registered c →
    c ∈ cs ∨ ∃ hc, w.handles c = some hc ∧ hc.state = .destroyed

theorem Evolves.tomb {cs : List String} (hi : Inv w) (he : Evolves w w') (ht : w.Tomb id cs) : w'.Tomb id cs := by
  have ⟨hc, hch⟩ := ht
  refine ⟨he.closed' hc, fun h' hh' c hm hreg => ?_⟩
  have ⟨_, h, hh, _⟩ := hc
  rw [(he.closed id hc).right h h' hh hh'] at hm
  have ⟨hc₀, hhc₀⟩ := hi.child id h hh c hm
  have hreg₀ : w.registered c := by
    cases hg : w.registered c with
    | true  => rfl
    | false => cases (he.removed c (hhc₀ ▸ rfl) hg).symm.trans hreg
  cases hch h hh c hm hreg₀ with
  | inl hcs  => exact .inl hcs
  | inr hdead =>
    have ⟨hc, hhc, hs⟩ := hdead
    have ⟨hc', hhc', hg⟩ := he.handles c hc hhc
    exact .inr ⟨hc', hhc', (hs ▸ hg.state).destroyed⟩

theorem tomb_children (hc : w.Closed id) : w.Tomb id (w.registeredChildren id) := by
  refine ⟨hc, fun h hh c hm hreg => .inl ?_⟩
  rw [World.registeredChildren, hh]
  exact List.mem_filter.mpr ⟨hm, hreg⟩

theorem safe_bury (hi : Inv w) (ht : w.Tomb id []) :
    (bury p id).Safe Inv Rely p (Either (fun _ w' => Rely p w w' ∧
      ∃ h, w'.handles id = some h ∧ h.state = .destroyed) (Rely p w)) w := by
  obtain ⟨h, hh, _⟩ := ht.left.right
  have hst : w.stateOf id = some h.state := by simp [World.stateOf, hh]
  refine .read_bind (fun _ _ => .refl) hi ?_
  rw [hst]
  split
  case isTrue     =>
    have he : w.Entering id p .destroyed :=
      .of_tomb ht.left fun h hh c hm hr => (ht.right h hh c hm hr).resolve_left List.not_mem_nil
    refine weaken (safe_transition hi he) (fun _ w' _ hr => ?_) fun _ hr => hr
    obtain ⟨hr, h', hh', hl⟩ := hr
    exact ⟨hr, h', hh', hl.destroyed⟩
  case isFalse hn => exact .pure hi ⟨.refl, h, hh, Option.some.inj (not_not.mp hn)⟩

theorem safe_finishDestroy (hi : Inv w) (hh : (w.handles id).isSome) :
    (finishDestroy p id).Safe Inv Rely p (Either (fun _ w' => Rely p w w' ∧ w'.Gone id) (Rely p w)) w := by
  refine (safe_stop hi hh).bind ?_ fun _ _ _ hr => hr
  intro _ w₁ hi₁ ⟨hr₁, hc₁, _⟩
  refine .read_bind (fun _ _ => .refl) hi₁ ?_
  have hchildren : (inTurn (destroy p false) (w₁.registeredChildren id)).Safe Inv Rely p
      (Either (fun _ w' => Rely p w w' ∧ w'.Tomb id []) (Rely p w)) w₁ := by
    refine .inTurn (J := fun cs w' => Rely p w w' ∧ w'.Tomb id cs ∧ ∀ c ∈ cs, (w'.handles c).isSome) hi₁
      ⟨hr₁, tomb_children hc₁, known_children hi₁⟩ (fun _ _ hj => ⟨hj.left, hj.right.left⟩) ?_
    intro c cs w₂ hi₂ ⟨hr₂, ht₂, hcs⟩
    have ⟨hc, hcs⟩ := List.forall_mem_cons.mp hcs
    refine (safe_destroy hi₂ hc).weaken fun r w₃ _ hr => ?_
    cases r with
    | error e => exact hr₂.trans hr
    | ok u    =>
      have ⟨hr₃, hgone⟩ := hr
      have ⟨_, hdead⟩ := hgone rfl
      have ⟨hc₃, hch₃⟩ := hr₃.evolves.tomb hi₂ ht₂
      refine ⟨hr₂.trans hr₃, ⟨hc₃, fun h hh c' hm hreg => ?_⟩, fun c' hc' => hr₃.evolves.isSome (hcs c' hc')⟩
      cases hch₃ h hh c' hm hreg with
      | inr hd => exact .inr hd
      | inl hm =>
        cases List.mem_cons.mp hm with
        | inl he => exact .inr (he ▸ hdead)
        | inr hm => exact .inl hm
  refine hchildren.bind ?_ fun _ _ _ hr => hr
  intro _ w₂ hi₂ ⟨hr₂, ht₂⟩
  have hbury : (withLock (.stop id) p (bury p id)).Safe Inv Rely p (Either (fun _ w' => Rely p w₂ w' ∧
      ∃ h, w'.handles id = some h ∧ h.state = .destroyed) (Rely p w₂)) w₂ := by
    refine safe_withLock (fun w₃ hi₃ hr₃ _ _ => ?_) fun _ _ _ hd => hd
    exact weaken (safe_bury hi₃ (hr₃.evolves.tomb hi₂ ht₂)) (fun _ _ _ hr => ⟨hr.left.weaken, hr.right⟩)
      fun _ => Rely.weaken
  refine hbury.bind ?_ fun _ _ _ hr => hr₂.trans hr
  intro _ w₃ hi₃ ⟨hr₃, h₃, hh₃, hd₃⟩
  have hr₃ := hr₂.trans hr₃
  have hremove : (withLock .create p (modify (·.remove id))).Safe Inv Rely p
      (Either (fun _ w' => Rely p w₃ w' ∧ w'.Gone id) (Rely p w₃)) w₃ := by
    refine safe_withLock (fun w₄ hi₄ hr₄ hl₄ ha₄ => ?_) fun _ _ _ hg => evolves_release.gone hg
    have ⟨h₄, hh₄, hg₄⟩ := hr₄.evolves.handles id h₃ hh₃
    have hd₄ : h₄.state = .destroyed := (hd₃ ▸ hg₄.state).destroyed
    have hs : w₄.Spent id := ⟨by rw [ha₄ rfl]; nofun, h₄, hh₄, by rw [hd₄]; rfl, .inl hd₄⟩
    refine .act (fun q hq => rely_remove fun h => ?_) (hi₄.remove hs) ⟨rely_remove fun _ => List.mem_cons_self, ?_⟩
    · exact absurd (Option.some.inj (h.symm.trans hl₄)) hq
    · exact ⟨Function.update_self .., h₄, hh₄, hd₄⟩
  exact weaken hremove (fun _ _ _ hr => ⟨hr₃.trans hr.left, hr.right⟩) fun _ => hr₃.trans

end Destroy

section Creation

variable {request : Request} {capabilities view : Capabilities} {key : Option Key}

theorem within_capabilityView (h : capabilityView request (some view) = .ok capabilities) : capabilities.Within view := by
  simp only [capabilityView, Option.any_some] at h
  split at h
  case isTrue     => cases h
  case isFalse hn =>
    cases h
    have ⟨ht, hs⟩ : request.grantedTools ⊆ view.tools ∧ request.grantedSkills ⊆ view.skills := by
      simpa using hn
    have hfrozen : ∀ {granted source l : List String}, granted ⊆ l → frozen granted source ⊆ l := by
      intro granted source l hl x hx
      have hm := List.mem_of_mem_filter hx
      rw [List.mem_insertionSort, List.mem_dedup] at hm
      exact hl hm
    exact ⟨hfrozen ht, hfrozen hs⟩

theorem existing?_eq_none_iff : existing? key w = none ↔
    ∀ k id h, key = some k → w.singletons k = some id → w.handles id = some h → h.state = .destroyed := by
  constructor
  case mp  =>
    intro hn k id h hk hs hh
    by_contra hd
    subst hk
    simp [existing?, hs, hh, hd] at hn
  case mpr =>
    intro hall
    by_contra hn
    obtain ⟨_, he⟩ := Option.ne_none_iff_exists'.mp hn
    simp only [existing?, Option.bind_eq_bind, Option.bind_eq_some_iff] at he
    obtain ⟨k, hk, id, hs, h, hh, _, hd, _⟩ := he
    have hd : h.state ≠ .destroyed := by simpa using hd
    exact hd (hall k id h hk hs hh)

theorem existing?_kept (h : existing? key w = none) (hp : Protected .create w w') (he : Evolves w w') :
    existing? key w' = none := by
  refine existing?_eq_none_iff.mpr fun k id h' hk hs hh' => ?_
  have ⟨_, hsing, _, hnone, _⟩ := hp
  cases hh : w.handles id with
  | none   => cases (hnone id hh).symm.trans hh'
  | some h₀ =>
    have hd := existing?_eq_none_iff.mp h k id h₀ hk (hsing ▸ hs) hh
    have ⟨h₁, hh₁, hg⟩ := he.handles id h₀ hh
    cases hh₁.symm.trans hh'
    exact (hd ▸ hg.state).destroyed

theorem safe_createRecord : createRecord.Safe Inv Rely p (Either
    (fun id w' => ∃ w₁, Inv w₁ ∧ Rely p w w₁ ∧ w₁.records id = none ∧ w' = w₁.setRecord id .creating) (Rely p w)) w := by
  refine .wait fun w₁ hr hi choice w₂ r ha => ?_
  have hnew : ∀ {id}, w₁.records id = none → w₁.handles id = none := by
    intro id hn
    cases hh : w₁.handles id with
    | none   => rfl
    | some h =>
      have ⟨s, hs, _⟩ := hi.recorded id h hh
      cases hn.symm.trans hs
  have hrely : ∀ {id} q, w₁.records id = none → Rely q w₁ (w₁.setRecord id .creating) :=
    fun q hn => rely_setRecord fun hh => absurd (hnew hn ▸ hh) (by simp)
  have hinv : ∀ {id}, w₁.records id = none → Inv (w₁.setRecord id .creating) :=
    fun hn => hi.setRecord fun h hh => nomatch (hnew hn).symm.trans hh
  cases choice with
  | drawn id =>
    simp only at ha
    split at ha
    case isFalse   => cases ha
    case isTrue hn =>
      cases ha
      exact ⟨fun q _ => hrely q hn, hinv hn, w₁, hi, hr, hn, rfl⟩
  | late id =>
    simp only at ha
    split at ha
    case isFalse   => cases ha
    case isTrue hn =>
      cases ha
      exact ⟨fun q _ => hrely q hn, hinv hn, hr.trans (hrely p hn)⟩
  | fails =>
    cases ha
    exact ⟨fun q _ => .refl, hi, hr⟩
  | cancel =>
    cases ha
    exact ⟨fun q _ => .refl, hi, hr⟩
  | go => cases ha

-- A runtime under creation
structure World.Fresh (w : World) (id : String) : Prop where
  registered : w.registered id
  admitted   : w.admitted ≠ some id
  handle     : ∃ h, w.handles id = some h ∧ h.state.active = false ∧ h.children = []

theorem World.Fresh.rely (hf : w.Fresh id) (hl : w.locks .create = some p) (hr : Rely p w w') : w'.Fresh id := by
  have ⟨hreg, _, ha, _, hh⟩ := hr.locks .create nofun hl
  have ⟨h, hh₀, hin, hch⟩ := hf.handle
  have ⟨h', hh', hch', hin'⟩ := hh id h hh₀
  exact ⟨hreg ▸ hf.registered, ha ▸ hf.admitted, h', hh', hin' hin, hch'.trans hch⟩

theorem safe_build (hi : Inv w) (hl : w.locks .create = some p) (ha : w.admitted = request.spec.parentId)
    (halone : existing? request.spec.key w = none) :
    (build p request).Safe Inv Rely p (Either (fun made w' => RelyBut [.create] p w w' ∧
      ∀ id e, made = .broken id e → w'.registered id = false ∧ (w'.handles id).isSome) (RelyBut [.create] p w)) w := by
  refine .read_bind (fun _ _ => .refl) hi <| .except_bind hi (fun capabilities hcap => ?_) fun _ => .refl
  refine safe_createRecord.bind ?_ fun _ _ _ hr => hr.weaken
  intro id w₂ hi₂ ⟨w₁, hi₁, hr₁, hn, hw⟩
  subst hw
  have hl₁ := hr₁.held _ hl
  have hp₁ := hr₁.locks .create nofun hl
  have habsent : w₁.handles id = none := by
    cases hh : w₁.handles id with
    | none   => rfl
    | some h =>
      have ⟨s, hs, _⟩ := hi₁.recorded id h hh
      cases hn.symm.trans hs
  have hreg : (w₁.setRecord id .creating).Registering id request capabilities p := by
    constructor
    case locked   => exact hl₁
    case absent   => exact habsent
    case recorded => exact Function.update_self ..
    case admitted =>
      have ⟨_, _, ha₁, _⟩ := hp₁
      exact ha₁.trans ha
    case alone    =>
      have halone₁ : existing? request.spec.key w₁ = none := existing?_kept halone hp₁ hr₁.evolves
      exact halone₁
    case parent   =>
      intro j h hp hh
      have ⟨_, _, _, hnone, _⟩ := hp₁
      cases hh₀ : w.handles j with
      | none    => cases (hnone j hh₀).symm.trans hh
      | some h₀ =>
        have ⟨h₁, hh₁, hg⟩ := hr₁.evolves.handles j h₀ hh₀
        cases hh₁.symm.trans hh
        rw [hp, Option.bind_some, hh₀, Option.map_some] at hcap
        exact hg.capabilities ▸ within_capabilityView hcap
  have hrecord : Rely p w (w₁.setRecord id .creating) :=
    hr₁.trans (rely_setRecord fun hh => absurd (habsent ▸ hh) (by simp))
  have hmine : ∀ {w' : World}, w'.locks .create = some p → ∀ q, q ≠ p → w'.locks .create ≠ some q :=
    fun h q hq h' => hq (Option.some.inj (h'.symm.trans h))
  have hr₃ : RelyBut [.create] p w ((w₁.setRecord id .creating).register id request capabilities) :=
    hrecord.weaken.trans (rely_register hreg fun _ => List.mem_singleton.mpr rfl)
  have hi₃ : Inv ((w₁.setRecord id .creating).register id request capabilities) := hi₂.register hreg
  have hl₃ := hr₃.held _ hl
  have hfresh : ((w₁.setRecord id .creating).register id request capabilities).Fresh id := by
    refine ⟨Function.update_self .., fun hadm => ?_, _, register_self, rfl, rfl⟩
    have ⟨_, h, hh, _⟩ := hi₂.admitted id hadm
    cases habsent.symm.trans hh
  refine .modify_bind (fun q hq => rely_register hreg fun h => absurd h (hmine hl₁ q hq)) hi₃ ?_
  generalize hw₃ : (w₁.setRecord id .creating).register id request capabilities = w₃ at hr₃ hi₃ hl₃ hfresh
  have he : w₃.Entering id p .ready := ⟨fun _ => ⟨hfresh.registered, hl₃⟩, nofun⟩
  refine (safe_transition hi₃ he).attempt_bind fun started w₄ hi₄ hr₄ => ?_
  cases started with
  | ok u    => exact .pure hi₄ ⟨hr₃.trans hr₄.left, fun _ _ h => nomatch h⟩
  | error e =>
    have hr₄ : Rely p w₃ w₄ := hr₄
    have hf₄ := hfresh.rely hl₃ hr₄
    have hl₄ := hr₄.held _ hl₃
    have he₄ : w₄.Entering id p (if e = .cancelled then .cancelled else .failed) := by
      split <;> exact ⟨nofun, nofun⟩
    have hun : unkept (if e = .cancelled then .cancelled else .failed) = [] := by
      split <;> rfl
    refine (safe_transition hi₄ he₄).attempt_bind fun r w₅ hi₅ hr₅ => ?_
    have hr₅ : Rely p w₄ w₅ := by
      cases r with
      | ok u    => exact (hun ▸ hr₅.left : RelyBut [] p w₄ w₅)
      | error _ => exact hr₅
    have hf₅ := hf₄.rely hl₄ hr₅
    have hl₅ := hr₅.held _ hl₄
    have ⟨h₅, hh₅, hin₅, hch₅⟩ := hf₅.handle
    have hi₆ : Inv (w₅.remove id) := hi₅.remove ⟨hf₅.admitted, h₅, hh₅, hin₅, .inr hch₅⟩
    have hr₆ : RelyBut [.create] p w (w₅.remove id) :=
      ((hr₃.trans hr₄.weaken).trans hr₅.weaken).trans (rely_remove fun _ => List.mem_singleton.mpr rfl)
    refine .modify_bind (fun q hq => rely_remove fun h => absurd h (hmine hl₅ q hq)) hi₆ <| .pure hi₆ ⟨hr₆, ?_⟩
    intro j e' hmade
    cases hmade
    exact ⟨Function.update_self .., hh₅ ▸ rfl⟩

theorem safe_createLocked (hi : Inv w) (hl : w.locks .create = some p) :
    (createLocked p request request.spec.key).Safe Inv Rely p (Either (fun made w' => RelyBut [.create] p w w' ∧
      ∀ id e, made = .broken id e → w'.registered id = false ∧ (w'.handles id).isSome) (RelyBut [.create] p w)) w := by
  cases hact : parentActive request.spec.parentId w with
  | false =>
    refine .act_bind (show _ = (w, false) by simp [hact]) (fun q _ => .refl) hi ?_
    exact .require_bind hi nofun .refl
  | true  =>
    have hi₁ : Inv (w.accept request.spec.parentId) := hi.accept hact hl
    have hr₁ : RelyBut [.create] p w (w.accept request.spec.parentId) :=
      rely_accept hact fun _ => List.mem_singleton.mpr rfl
    have hothers : ∀ q, q ≠ p → Rely q w (w.accept request.spec.parentId) :=
      fun q hq => rely_accept hact fun h => absurd (Option.some.inj (h.symm.trans hl)) hq
    refine .act_bind (show _ = (w.accept request.spec.parentId, true) by simp [hact]) hothers hi₁ ?_
    refine .require_bind hi₁ (fun _ => .read_bind (fun _ _ => .refl) hi₁ ?_) hr₁
    split
    case h_1 id handle _ =>
      split
      case isTrue  => exact .pure hi₁ ⟨hr₁, nofun⟩
      case isFalse => exact .raise hi₁ hr₁
    case h_2 hex         =>
      exact weaken (safe_build hi₁ hl rfl hex) (fun _ _ _ hr => ⟨hr₁.trans hr.left, hr.right⟩) fun _ => hr₁.trans

theorem safe_cleanup {cancelled : Bool} (hi : Inv w) (hreg : w.registered id = false) (hh : (w.handles id).isSome) :
    (cleanup p id cancelled).Safe Inv Rely p (Either (fun _ w' => Rely p w w') (Rely p w)) w := by
  refine (safe_cancelTask hi hh).bind ?_ fun _ _ _ hr => hr
  rintro _ w₁ hi₁ ⟨hr₁, _⟩
  refine (safe_closeResources hi₁).bind ?_ fun _ _ _ hr => hr₁.trans hr
  rintro _ w₂ hi₂ ⟨hr₂, h₂, hh₂, _⟩
  have hr₂ := hr₁.trans hr₂
  have hreg₂ := hr₂.evolves.removed id hh hreg
  have hst : w₂.stateOf id = some h₂.state := by simp [World.stateOf, hh₂]
  refine .read_bind (fun _ _ => .refl) hi₂ ?_
  rw [hst]
  split
  case isFalse   => exact .pure hi₂ hr₂
  case isTrue hc =>
    have hs : h₂.state = .cancelled := Option.some.inj hc.right
    have hopen : w₂.admitted ≠ some id := by
      intro ha
      cases hreg₂.symm.trans (hi₂.admitted id ha).left
    have hchildren : h₂.children = [] :=
      ((hi₂.removed id h₂ hh₂ hreg₂).resolve_left (by rw [hs]; decide)).right
    have he : w₂.Entering id p .destroyed := by
      refine .of_tomb ⟨hopen, h₂, hh₂, by rw [hs]; rfl⟩ fun h hh c hm => ?_
      cases hh.symm.trans hh₂
      rw [hchildren] at hm
      cases hm
    refine (safe_transition hi₂ he).attempt_bind fun r w₃ hi₃ hr₃ => .pure hi₃ ?_
    cases r with
    | ok u    => exact hr₂.trans hr₃.left
    | error e => exact hr₂.trans hr₃

theorem safe_createRuntime (hi : Inv w) :
    (createRuntime p request).Safe Inv Rely p (Either (fun _ w' => Rely p w w') (Rely p w)) w := by
  refine .require_bind hi (fun _ => .read_bind (fun _ _ => .refl) hi <| .require_bind hi (fun _ => ?_) .refl) .refl
  refine .except_bind hi (fun key hkey => ?_) fun _ => .refl
  have hkey' : request.spec.key = key := by rw [Spec.key, hkey]
  subst hkey'
  have hlocked : (withLock .create p (createLocked p request request.spec.key)).Safe Inv Rely p
      (Either (fun made w' => Rely p w w' ∧
        ∀ id e, made = .broken id e → w'.registered id = false ∧ (w'.handles id).isSome) (Rely p w)) w := by
    refine safe_withLock (fun w₁ hi₁ hr₁ hl₁ _ => ?_) fun _ _ _ hm => hm
    exact safe_createLocked hi₁ hl₁
  refine hlocked.bind ?_ fun _ _ _ hr => hr
  intro made w₁ hi₁ ⟨hr₁, hmade⟩
  cases made with
  | existing id     => exact .pure hi₁ hr₁
  | created id      =>
    have hagain : (withLock .create p (pure ())).Safe Inv Rely p
        (Either (fun _ w' => Rely p w₁ w' ∧ True) (Rely p w₁)) w₁ :=
      safe_withLock (fun w₂ hi₂ _ _ _ => .pure hi₂ ⟨.refl, trivial⟩) fun _ _ _ h => h
    exact weaken hagain (fun _ _ _ hr => hr₁.trans hr.left) fun _ => hr₁.trans
  | broken id error =>
    have ⟨hreg, hh⟩ := hmade id error rfl
    refine (safe_cleanup hi₁ hreg hh).bind ?_ fun _ _ _ hr => hr₁.trans hr
    exact fun _ w₂ hi₂ hr₂ => .raise hi₂ (hr₁.trans hr₂)

end Creation

section System

variable {r : Except Error Unit} {o : Outside} {k : Co Unit}

theorem safe_body (hi : Inv w) (hk : w.Known code) :
    (body p code).Safe Inv Rely p (fun r w' => Rely p w w' ∧ w'.Promise code r) w := by
  have hplain : ∀ {k : Co Unit}, k.Safe Inv Rely p
      (Either (fun _ w' => Rely p w w' ∧ w'.Promise code (.ok ())) (Rely p w)) w →
      k.Safe Inv Rely p (fun r w' => Rely p w w' ∧ w'.Promise code r) w := by
    intro k h
    refine h.weaken fun r w' _ hr => ?_
    cases r with
    | ok u    => exact hr
    | error e => exact ⟨hr, by cases code <;> trivial⟩
  refine hplain ?_
  cases code with
  | create request        => exact weaken (safe_createRuntime hi) (fun _ _ _ hr => ⟨hr, trivial⟩) fun _ hr => hr
  | stop id own           => exact weaken (safe_stop hi hk) (fun _ _ _ hr => ⟨hr.left, hr.right.right⟩) fun _ hr => hr
  | destroy id own        => exact safe_destroy hi hk
  | finishDestroy id      => exact safe_finishDestroy hi hk
  | finishStop id         =>
    have ⟨h, hh, hp⟩ := hk
    exact safe_finishStop hi hh hp
  | transition id outcome =>
    have he : w.Entering id p outcome.state := by
      cases outcome <;> exact ⟨nofun, nofun⟩
    have hun : unkept outcome.state = [] := by
      cases outcome <;> rfl
    exact weaken (safe_transition hi he) (fun _ w' _ hr => ⟨(hun ▸ hr.left : RelyBut [] p w w'), hr.right⟩) fun _ hr => hr

theorem safe_program (hi : Inv w) (hk : program w p = some k) : k.Safe Inv Rely p (fun _ _ => True) w := by
  unfold program at hk
  split at hk
  case h_2         => cases hk
  case h_1 code ht =>
    cases hk
    refine (safe_body hi (hi.known p code none ht)).attempt_bind fun r w₁ hi₁ ⟨hr₁, hpr⟩ => ?_
    have ht₁ := hr₁.own code ht
    have hi₂ := hi₁.finish ht₁ hpr
    exact ⟨fun q hq => rely_finish ht₁ hq, hi₂, hi₂, trivial⟩

theorem sound_outside (hi : Inv w) (ho : outside o w = some w') : Inv w' ∧ ∀ p, Rely p w w' := by
  cases o with
  | call code =>
    simp only [outside] at ho
    split at ho
    case isFalse   => cases ho
    case isTrue hk =>
      cases ho
      refine ⟨hi.addTask ?_, fun p => rely_addTask hi⟩
      cases code with
      | create request        =>
        intro id hid
        simp only [Code.known, hid, Option.all_some] at hk
        exact hk
      | transition id outcome => exact hk
      | stop id own           => exact hk
      | destroy id own        => exact hk
      | finishStop id         => cases hk
      | finishDestroy id      => cases hk
  | ended id =>
    cases ho
    have hquiet : ∀ h, w.handles id = some h → Quiet h { h with task := h.task.map fun _ => true } := by
      refine fun h _ => ⟨rfl, rfl, rfl, rfl, fun _ => ?_, fun hc => hc⟩
      cases h.task <;> simp
    exact ⟨hi.update hquiet (fun h t hh ht => hi.stopTask id h t hh ht) (fun h t hh ht => hi.destroyTask id h t hh ht),
      fun p => rely_update hquiet⟩
  | closed id =>
    cases ho
    have hquiet : ∀ h, w.handles id = some h → Quiet h { h with closed := h.closed || h.closing } :=
      fun h _ => ⟨rfl, rfl, rfl, rfl, fun ht => ht, fun hc => by simp [hc]⟩
    exact ⟨hi.update hquiet (fun h t hh ht => hi.stopTask id h t hh ht) (fun h t hh ht => hi.destroyTask id h t hh ht),
      fun p => rely_update hquiet⟩

theorem inv_init (h : eventLoop.init w) : Inv w := by
  have ⟨records, h⟩ := h
  subst h
  constructor
  case unlocked => exact fun _ => rfl
  case fresh    => exact fun _ _ => rfl
  all_goals
    intros
    contradiction

theorem sound : eventLoop.Sound Inv Rely where
  refl _ _          := .refl
  trans             := .trans
  init              := inv_init
  outside hi ho     := sound_outside hi ho
  program hi hk     := safe_program hi hk

end System
end RuntimeHost
