import Mathlib.Data.List.TakeWhile
import BridleModel.Events.Bus

namespace Events

section Subscriber

variable {s : Subscriber} {e : Event} {changes n : Nat} {rest : List Event}

-- A subscription has received what it asked for, without gaps and in order. An event that it has not received is
-- still to come, unless the queue has overrun it.
structure Subscriber.GapFree (s : Subscriber) : Prop where
  inOrder  : s.received.Sublist (s.start.filter s.replays ++ s.since.filter s.wanted)
  once     : (s.received.map (·.seq)).Pairwise (· < ·)
  replayed : s.subscribed = true → ∀ e ∈ s.start, s.replays e = true →
    e ∈ s.received ∨ ∃ rest walk, s.phase = .replaying rest walk ∧ e ∈ rest
  followed : s.subscribed = true → ∀ before e after, s.since = before ++ e :: after → s.wanted e = true →
    e ∈ s.received ∨ e ∈ s.queue ∨ subscriberQueueSize ≤ after.length
  returns  : s.phase ≠ .raised

-- What a subscription has received, by where its generator stands
def Subscriber.Progress (changes : Nat) (s : Subscriber) : Prop :=
  match s.phase with
  | .raised              => False
  | .closed              => s.received.Sublist (s.start.filter s.replays ++ s.since.filter s.wanted)
  | .replaying rest walk =>
    walk = changes ∧ s.since = [] ∧ s.queue = [] ∧
      ∃ shown, s.start = shown ++ rest ∧ s.received = shown.filter s.replays
  | .following           =>
    ∃ taken gone, s.received = s.start.filter s.replays ++ taken ∧
      BoundedQueue.Reads subscriberQueueSize s.wanted s.since taken s.queue gone

structure Subscriber.Ordered (n : Nat) (s : Subscriber) : Prop where
  sorted  : ((s.start ++ s.since).map (·.seq)).Pairwise (· < ·)
  bounded : ∀ e ∈ s.start ++ s.since, e.seq ≤ n

theorem dropWhile_cases {α : Type} {p : α → Bool} {l : List α} :
    (l.dropWhile (!p ·) = [] ∧ ∀ a ∈ l, p a = false) ∨
      ∃ skipped a rest, l.dropWhile (!p ·) = a :: rest ∧ l = skipped ++ a :: rest ∧ (∀ b ∈ skipped, p b = false) ∧
        p a = true := by
  have hsplit := List.takeWhile_append_dropWhile (p := (!p ·)) (l := l)
  have hskip : ∀ b ∈ l.takeWhile (!p ·), p b = false := fun b hb => by
    simpa using List.mem_takeWhile_imp hb
  cases hd : l.dropWhile (!p ·) with
  | nil      =>
    rw [hd, List.append_nil] at hsplit
    exact .inl ⟨rfl, hsplit ▸ hskip⟩
  | cons a _ =>
    rw [hd] at hsplit
    have ha := List.head?_dropWhile_not (!p ·) l
    rw [hd] at ha
    exact .inr ⟨_, a, _, rfl, hsplit.symm, hskip, by simpa using ha⟩

theorem filter_of_false {α : Type} {p : α → Bool} {l : List α} (h : ∀ a ∈ l, p a = false) : l.filter p = [] :=
  List.filter_eq_nil_iff.mpr fun a ha => by simp [h a ha]

theorem Subscriber.follow_same : s.follow.start = s.start ∧ s.follow.since = s.since := by
  rw [follow]
  split
  case h_1 => exact ⟨rfl, rfl⟩
  case h_2 => exact ⟨rfl, rfl⟩

theorem Subscriber.resume_same : (s.resume changes).start = s.start ∧ (s.resume changes).since = s.since := by
  rw [resume]
  split
  case h_1 => exact follow_same
  case h_2 => exact ⟨rfl, rfl⟩
  case h_3 => exact ⟨rfl, rfl⟩
  case h_4 =>
    split
    case isTrue => exact ⟨rfl, rfl⟩
    case isFalse =>
      split
      case h_1 => exact follow_same
      case h_2 => exact ⟨rfl, rfl⟩

theorem Subscriber.Progress.follow {taken gone : List Event}
    (hr : s.received = s.start.filter s.replays ++ taken)
    (h : BoundedQueue.Reads subscriberQueueSize s.wanted s.since taken s.queue gone) : s.follow.Progress changes := by
  rw [Subscriber.follow]
  cases dropWhile_cases (p := s.wanted) (l := s.queue) with
  | inl hd =>
    rw [hd.1]
    have hq : BoundedQueue.Reads subscriberQueueSize s.wanted s.since taken (s.queue ++ []) gone := by
      rwa [List.append_nil]
    exact ⟨taken, _, hr, hq.skip hd.2⟩
  | inr hd =>
    obtain ⟨skipped, e, rest, hd, hq, hs, he⟩ := hd
    rw [hd]
    rw [hq] at h
    refine ⟨taken ++ [e], _, ?_, (h.skip hs).take he⟩
    change s.received ++ [e] = _
    rw [hr, List.append_assoc]
    rfl

theorem Subscriber.Progress.resume (h : s.Progress changes) : (s.resume changes).Progress changes := by
  rw [Subscriber.resume]
  cases hp : s.phase with
  | raised    => simp [Progress, hp] at h
  | closed    => exact h
  | following =>
    simp only [Progress, hp] at h
    obtain ⟨taken, gone, hr, hq⟩ := h
    exact .follow hr hq
  | replaying rest walk =>
    simp only [Progress, hp] at h
    obtain ⟨rfl, hsince, hqueue, shown, hstart, hrec⟩ := h
    simp only [ne_eq, not_true_eq_false, if_false]
    cases dropWhile_cases (p := s.replays) (l := rest) with
    | inl hd =>
      rw [hd.1]
      have hr : s.received = s.start.filter s.replays ++ [] := by
        rw [hrec, hstart, List.filter_append, filter_of_false hd.2, List.append_nil, List.append_nil]
      have hq : BoundedQueue.Reads subscriberQueueSize s.wanted s.since [] s.queue [] := by
        rw [hsince, hqueue]
        exact BoundedQueue.reads_nil
      exact .follow hr hq
    | inr hd =>
      obtain ⟨skipped, e, rest', hd, rfl, hs, he⟩ := hd
      rw [hd]
      refine ⟨rfl, hsince, hqueue, shown ++ skipped ++ [e], ?_, ?_⟩
      · change s.start = _
        rw [hstart]
        simp
      · change s.received ++ [e] = List.filter s.replays _
        rw [hrec, List.filter_append, List.filter_append, filter_of_false hs, List.filter_cons_of_pos he]
        simp

theorem Subscriber.subscribed_iff :
    s.subscribed = true ↔ s.phase = .following ∨ ∃ rest walk, s.phase = .replaying rest walk := by
  rw [subscribed]
  cases hp : s.phase with
  | _ => simp

-- A delivery to a generator that is past the ring
theorem Subscriber.Progress.deliver (h : s.Progress changes) (hp : ∀ rest walk, s.phase ≠ .replaying rest walk) :
    (s.deliver e).Progress n := by
  rw [Subscriber.deliver]
  split
  case isTrue hs  =>
    cases subscribed_iff.mp hs with
    | inr hr =>
      obtain ⟨rest, walk, hr⟩ := hr
      exact absurd hr (hp rest walk)
    | inl hf =>
      simp only [Progress, hf] at h ⊢
      obtain ⟨taken, gone, hr, hq⟩ := h
      obtain ⟨gone', hq⟩ := hq.put (a := e) (by decide)
      exact ⟨taken, gone', hr, hq⟩
  case isFalse hs =>
    cases hph : s.phase with
    | following          => exact absurd (subscribed_iff.mpr (.inl hph)) hs
    | replaying rest walk => exact absurd hph (hp rest walk)
    | raised             => simp [Progress, hph] at h
    | closed             => simpa only [Progress, hph] using h

theorem Subscriber.Ordered.deliver (h : s.Ordered n) (he : e.seq = n + 1) : (s.deliver e).Ordered (n + 1) := by
  rw [Subscriber.deliver]
  split
  case isFalse => exact ⟨h.sorted, fun e he => (h.bounded e he).trans (Nat.le_succ n)⟩
  case isTrue  =>
    constructor
    case sorted  =>
      change ((s.start ++ (s.since ++ [e])).map (·.seq)).Pairwise (· < ·)
      rw [← List.append_assoc, List.map_append, List.pairwise_append]
      refine ⟨h.sorted, by simp, ?_⟩
      simp only [List.mem_map, List.map_cons, List.map_nil, List.mem_singleton, forall_exists_index, and_imp]
      rintro _ d hd rfl _ rfl
      have hb := h.bounded d hd
      omega
    case bounded =>
      change ∀ d ∈ s.start ++ (s.since ++ [e]), d.seq ≤ n + 1
      intro d hd
      rw [← List.append_assoc, List.mem_append, List.mem_singleton] at hd
      cases hd with
      | inl hd => exact (h.bounded d hd).trans (Nat.le_succ n)
      | inr hd => exact hd ▸ he.le

theorem Subscriber.Progress.inOrder (h : s.Progress changes) :
    s.received.Sublist (s.start.filter s.replays ++ s.since.filter s.wanted) := by
  cases hp : s.phase with
  | raised              => simp [Progress, hp] at h
  | closed              => simpa only [Progress, hp] using h
  | following           =>
    simp only [Progress, hp] at h
    obtain ⟨taken, gone, hr, hq⟩ := h
    rw [hr, hq.split, List.filter_append]
    exact (List.Sublist.refl _).append (hq.inOrder.trans (List.sublist_append_left ..))
  | replaying rest walk =>
    simp only [Progress, hp] at h
    obtain ⟨_, _, _, shown, hs, hr⟩ := h
    rw [hr, hs, List.filter_append, List.append_assoc]
    exact List.sublist_append_left ..

theorem Subscriber.Progress.gapFree (h : s.Progress changes) (ho : s.Ordered n) : s.GapFree where
  inOrder  := h.inOrder
  once     := by
    have hs := h.inOrder.trans ((List.filter_sublist).append (List.filter_sublist))
    exact ho.sorted.sublist (hs.map _)
  returns  := by
    intro hp
    simp [Progress, hp] at h
  replayed := by
    intro hs e he hw
    cases subscribed_iff.mp hs with
    | inl hf =>
      simp only [Progress, hf] at h
      obtain ⟨taken, gone, hr, _⟩ := h
      rw [hr]
      exact .inl (List.mem_append_left _ (List.mem_filter.mpr ⟨he, hw⟩))
    | inr hp =>
      obtain ⟨rest, walk, hp⟩ := hp
      simp only [Progress, hp] at h
      obtain ⟨_, _, _, shown, hstart, hr⟩ := h
      rw [hstart, List.mem_append] at he
      cases he with
      | inl he => exact .inl (hr ▸ List.mem_filter.mpr ⟨he, hw⟩)
      | inr he => exact .inr ⟨rest, walk, hp, he⟩
  followed := by
    intro hs before e after hsplit hw
    cases subscribed_iff.mp hs with
    | inl hf =>
      simp only [Progress, hf] at h
      obtain ⟨taken, gone, hr, hq⟩ := h
      exact (hq.fate hsplit hw).imp_left fun ht => hr ▸ List.mem_append_right _ ht
    | inr hp =>
      obtain ⟨rest, walk, hp⟩ := hp
      simp only [Progress, hp] at h
      obtain ⟨_, hsince, _⟩ := h
      rw [hsince] at hsplit
      simp at hsplit

end Subscriber

section Run

variable {bus bus' : EventBus} {a : Action} {as : List Action} {s : Subscriber}

structure EventBus.Sound (bus : EventBus) : Prop where
  sorted      : (bus.ring.map (·.seq)).Pairwise (· < ·)
  bounded     : ∀ e ∈ bus.ring, e.seq ≤ bus.seq
  subscribers : ∀ s ∈ bus.subscribers, s.Progress bus.seq ∧ s.Ordered bus.seq

-- Nothing is published while a subscription is paused on the ring.
def Admitted (bus : EventBus) : Action → Prop
  | .publish _ _ _ => ∀ s ∈ bus.subscribers, ∀ rest walk, s.phase ≠ .replaying rest walk
  | _              => True

theorem sound_empty : EventBus.empty.Sound where
  sorted      := List.Pairwise.nil
  bounded     := by simp [EventBus.empty]
  subscribers := by simp [EventBus.empty]

theorem EventBus.Sound.publish {type occurredAt : String} {payload : Json.Dict} (h : bus.Sound)
    (ha : Admitted bus (.publish type occurredAt payload)) : (bus.publish type occurredAt payload).Sound := by
  let e : Event := { seq := bus.seq + 1, type, occurredAt, payload }
  have hb : ∀ d ∈ bus.ring ++ [e], d.seq ≤ bus.seq + 1 := by
    intro d hd
    cases List.mem_append.mp hd with
    | inl hd => exact (h.bounded d hd).trans (Nat.le_succ _)
    | inr hd => exact (List.mem_singleton.mp hd) ▸ Nat.le_refl _
  have hs : ((bus.ring ++ [e]).map (·.seq)).Pairwise (· < ·) := by
    rw [List.map_append, List.pairwise_append]
    refine ⟨h.sorted, by simp, ?_⟩
    simp only [List.mem_map, List.map_cons, List.map_nil, List.mem_singleton, forall_exists_index, and_imp]
    rintro _ d hd rfl _ rfl
    exact Nat.lt_succ_of_le (h.bounded d hd)
  constructor
  case sorted      => exact hs.sublist (BoundedQueue.put_sublist.map _)
  case bounded     => exact fun d hd => hb d (BoundedQueue.put_sublist.subset hd)
  case subscribers =>
    intro s hm
    obtain ⟨t, ht, rfl⟩ := List.mem_map.mp hm
    obtain ⟨hp, ho⟩ := h.subscribers t ht
    exact ⟨hp.deliver (ha t ht), ho.deliver rfl⟩

theorem Subscriber.Ordered.resume {n changes : Nat} (h : s.Ordered n) : (s.resume changes).Ordered n := by
  obtain ⟨hstart, hsince⟩ := @resume_same s changes
  exact ⟨by rw [hstart, hsince]; exact h.sorted, by rw [hstart, hsince]; exact h.bounded⟩

theorem EventBus.Sound.subscribe {lastSeq : Option Int} {types : Option (List String)} (h : bus.Sound) :
    (bus.subscribe lastSeq types).Sound where
  sorted      := h.sorted
  bounded     := h.bounded
  subscribers := by
    intro s hm
    cases List.mem_append.mp hm with
    | inl hm => exact h.subscribers s hm
    | inr hm =>
      obtain rfl := List.mem_singleton.mp hm
      refine ⟨.resume ⟨rfl, rfl, rfl, [], rfl, rfl⟩, .resume ⟨?_, ?_⟩⟩
      · rw [List.append_nil]
        exact h.sorted
      · rw [List.append_nil]
        exact h.bounded

theorem EventBus.Sound.modify {k : Nat} {f : Subscriber → Subscriber} (h : bus.Sound)
    (hf : ∀ s, s.Progress bus.seq ∧ s.Ordered bus.seq → (f s).Progress bus.seq ∧ (f s).Ordered bus.seq) :
    ({ bus with subscribers := bus.subscribers.modify k f } : EventBus).Sound where
  sorted      := h.sorted
  bounded     := h.bounded
  subscribers := by
    intro s hm
    obtain ⟨i, hi, rfl⟩ := List.mem_iff_getElem.mp hm
    rw [List.getElem_modify]
    have hs := h.subscribers _ (List.getElem_mem (by simpa using hi))
    split
    case isTrue  => exact hf _ hs
    case isFalse => exact hs

theorem EventBus.Sound.step (h : bus.Sound) (ha : Admitted bus a) (hs : system.step bus a = some bus') : bus'.Sound := by
  cases a with
  | publish type occurredAt payload => cases hs; exact h.publish ha
  | subscribe lastSeq types         => cases hs; exact h.subscribe
  | resume k                        => cases hs; exact h.modify fun s hs => ⟨hs.1.resume, hs.2.resume⟩
  | close k                         => cases hs; exact h.modify fun s hs => ⟨hs.1.inOrder, hs.2.sorted, hs.2.bounded⟩

theorem subscriptions_gapFree (run : system.run .empty as = some bus)
    (admitted : ∀ {b₁ a b₂}, system.Occurs .empty as b₁ a b₂ → Admitted b₁ a) :
    ∀ s ∈ bus.subscribers, s.GapFree := by
  have h : bus.Sound :=
    TransitionSystem.Occurs.run_invariant sound_empty (fun ho hs => hs.step (admitted ho) ho.step) run
  intro s hs
  obtain ⟨hp, ho⟩ := h.subscribers s hs
  exact hp.gapFree ho

-- A publication in a pause on the ring ends the subscription with an exception, whatever happens before it goes on.
theorem raised_of_publish {rest : List Event} {walk : Nat} (h : s.phase = .replaying rest walk) (hw : walk < bus.seq) :
    (s.resume bus.seq).phase = .raised := by
  rw [Subscriber.resume, h]
  simp only
  rw [if_pos (Nat.ne_of_lt hw)]

-- One event is published before the subscription, and one after it has replayed the first.
theorem subscriptions_gapFree_replayed :
    ∃ bus, system.run .empty [.publish "a" "" [], .subscribe none none, .resume 0, .publish "b" "" []] = some bus ∧
      ∀ s ∈ bus.subscribers, s.GapFree := by
  obtain ⟨bus, run⟩ : ∃ bus, system.run .empty [.publish "a" "" [], .subscribe none none, .resume 0,
      .publish "b" "" []] = some bus := ⟨_, rfl⟩
  refine ⟨bus, run, subscriptions_gapFree run fun ho => ?_⟩
  cases ho.cons with
  | inl h => obtain ⟨rfl, rfl⟩ := h; exact fun s hs => absurd hs List.not_mem_nil
  | inr h =>
    obtain ⟨_, h₁, ho⟩ := h
    cases h₁
    cases ho.cons with
    | inl h => obtain ⟨rfl, rfl⟩ := h; trivial
    | inr h =>
      obtain ⟨_, h₂, ho⟩ := h
      cases h₂
      cases ho.cons with
      | inl h => obtain ⟨rfl, rfl⟩ := h; trivial
      | inr h =>
        obtain ⟨_, h₃, ho⟩ := h
        cases h₃
        cases ho.cons with
        | inl h =>
          obtain ⟨rfl, rfl⟩ := h
          intro s hs rest walk hp
          obtain rfl := List.mem_singleton.mp hs
          exact Phase.noConfusion hp
        | inr h =>
          obtain ⟨_, _, ho⟩ := h
          exact absurd ho TransitionSystem.Occurs.nil

theorem not_subscriptions_gapFree :
    ¬∀ as bus, system.run .empty as = some bus → ∀ s ∈ bus.subscribers, s.GapFree := by
  intro h
  let as : List Action := [.publish "a" "" [], .subscribe none none, .publish "b" "" [], .resume 0]
  obtain ⟨bus, hr⟩ : ∃ bus, system.run .empty as = some bus := ⟨_, rfl⟩
  cases hr
  exact (h as _ rfl _ List.mem_cons_self).returns rfl

end Run
end Events
