import BridleModel.Authorization.Revocation
import BridleModel.Authorization.Theorems.Derivation

namespace Authorization

namespace RevocationToken

variable {token : RevocationToken} {seen ids : List Nat} {id : Nat}

theorem lineage_nodup (h : token.lineage seen = some ids) : ids.Nodup ∧ ∀ id ∈ ids, id ∉ seen := by
  induction token generalizing seen ids with
  | root i =>
    unfold lineage at h
    split at h
    case isTrue     => cases h
    case isFalse hi => cases h; simpa using hi
  | child parent i hp =>
    unfold lineage at h
    split at h
    case isTrue     => cases h
    case isFalse hi =>
      obtain ⟨parents, hl, h⟩ := Option.map_eq_some_iff.mp h
      obtain ⟨nodup, apart⟩ := hp hl
      cases h
      constructor
      · refine List.nodup_append.mpr ⟨nodup, List.nodup_singleton _, fun a ha b hb he => ?_⟩
        cases List.mem_singleton.mp hb
        exact apart a ha (he ▸ List.mem_cons_self)
      · intro j hj
        cases List.mem_append.mp hj with
        | inl hj => exact fun hs => apart j hj (List.mem_cons_of_mem _ hs)
        | inr hj => exact List.mem_singleton.mp hj ▸ hi

end RevocationToken

namespace Revocations

variable {s s' : Revocations} {a : Action} {token : RevocationToken} {ids : List Nat} {id i thread : Nat}
  {r : StartReservation} {f : Finish} {next : Thread}

theorem addPending_apply {amount : Int} {pending : Nat → Int} (nodup : ids.Nodup) :
    addPending ids amount pending id = pending id + if id ∈ ids then amount else 0 := by
  induction ids generalizing pending with
  | nil           => simp [addPending]
  | cons hd tl hi =>
    have ⟨hn, nodup⟩ := List.nodup_cons.mp nodup
    rw [addPending, List.foldl_cons, ← addPending, hi nodup]
    by_cases he : id = hd
    case pos => subst he; simp [hn]
    case neg => simp [he]

@[simp]
theorem moveTo_tokens : (s.moveTo thread next).tokens = s.tokens := rfl

@[simp]
theorem moveTo_events : (s.moveTo thread next).events = s.events := rfl

@[simp]
theorem moveTo_pendingStarts : (s.moveTo thread next).pendingStarts = s.pendingStarts := rfl

@[simp]
theorem moveTo_reservations : (s.moveTo thread next).reservations = s.reservations := rfl

@[simp]
theorem moveTo_threads {thread' : Nat} :
    (s.moveTo thread next).threads thread' = if thread' = thread then next else s.threads thread' :=
  Function.update_apply ..

-- The reservations with a token in their lineage that have not started yet
def pendingBelow (s : Revocations) (id : Nat) : Nat :=
  s.reservations.countP fun r => r.state = .pending ∧ id ∈ r.lineage

def reserve (s : Revocations) (ids : List Nat) : Revocations where
  tokens        := s.tokens
  events        := s.events
  pendingStarts := addPending ids 1 s.pendingStarts
  reservations  := s.reservations ++ [⟨ids, .pending⟩]
  threads       := s.threads

def finished (s : Revocations) (i : Nat) (r : StartReservation) (f : Finish) : Revocations where
  tokens        := s.tokens
  events        := s.events
  pendingStarts := addPending r.lineage (-1) s.pendingStarts
  reservations  := s.reservations.set i { r with state := f.state }
  threads       := s.threads

theorem finish_cases (s : Revocations) (i : Nat) (f : Finish) :
    (s.finish i f = s ∧ ∀ r, s.reservations[i]? = some r → r.state ≠ .pending) ∨
      ∃ r, s.reservations[i]? = some r ∧ r.state = .pending ∧ s.finish i f = s.finished i r f := by
  unfold finish
  split
  case h_1 hn => exact .inl ⟨rfl, by simp [hn]⟩
  case h_2 r hr =>
    split
    case isTrue hs  => exact .inl ⟨rfl, fun _ h => by cases hr.symm.trans h; exact hs⟩
    case isFalse hs => exact .inr ⟨r, hr, Decidable.not_not.mp hs, rfl⟩

-- What a step does, by the section of the code that it runs
inductive Effect (s : Revocations) : Action → Revocations → Prop
  | token {a : Action} (token : RevocationToken) (quiet : s.returns a = none) :
      Effect s a { s with tokens := token :: s.tokens }
  | revoked {thread : Nat} (token : RevocationToken) (none : ¬0 < s.pendingStarts token.id) :
      Effect s (.revoke thread token) { s with events := insert token.id s.events }
  | waits (thread : Nat) (token : RevocationToken) (changed : Bool) (some : 0 < s.pendingStarts token.id)
      (idle : s.threads thread = .idle) : Effect s (.revoke thread token)
        ({ s with events := insert token.id s.events }.moveTo thread (.waiting token changed))
  | wakes {token : RevocationToken} {changed : Bool} (thread : Nat)
      (waiting : s.threads thread = .waiting token changed) (none : ¬0 < s.pendingStarts token.id) : Effect s (.wake thread) (s.moveTo thread .idle)
  | denied {a : Action} (quiet : s.returns a = none) : Effect s a s
  | reserved {grant : AgentGrant} {action resourceType : String} {attributes : Option Attributes}
      (thread : Nat) (ids : List Nat) (lineage : grant.revocation.lineage [] = some ids)
      (active : ∀ id ∈ ids, id ∉ s.events) (idle : s.threads thread = .idle) :
      Effect s (.execute thread grant action resourceType attributes)
        ((s.reserve ids).moveTo thread (.starting s.reservations.length))
  | starts {f : Finish} (thread : Nat) (i : Nat) (starting : s.threads thread = .starting i) :
      Effect s (.start thread f) ((s.finish i f).moveTo thread .idle)
  | finishes (i : Nat) (f : Finish) : Effect s (.finish i f) (s.finish i f)

theorem executeAuthorized_cases (s : Revocations) (grant : AgentGrant) (action resourceType : String)
    (attributes : Option Attributes) :
    (∃ d, s.executeAuthorized grant action resourceType attributes = (s, .denied d)) ∨
      ∃ ids d, grant.revocation.lineage [] = some ids ∧ (∀ id ∈ ids, id ∉ s.events) ∧
        s.executeAuthorized grant action resourceType attributes =
          (s.reserve ids, .reserved d s.reservations.length) := by
  unfold executeAuthorized
  split
  case isTrue => exact .inl ⟨_, rfl⟩
  dsimp only
  split
  case isTrue => exact .inl ⟨_, rfl⟩
  unfold reserveStartLocked
  cases hl : grant.revocation.lineage [] with
  | none     => exact .inl ⟨_, rfl⟩
  | some ids =>
    dsimp only
    by_cases hd : ids.any (· ∈ s.events)
    case pos => rw [if_pos hd]; exact .inl ⟨_, rfl⟩
    case neg => rw [if_neg hd]; exact .inr ⟨ids, _, rfl, by simpa using hd, rfl⟩

theorem step_effect (h : s.step a = some s') : Effect s a s' := by
  cases a with
  | create id =>
    have ⟨_, h⟩ := Option.ite_none_right_eq_some.mp h
    cases h
    exact .token _ rfl
  | child parent id =>
    have ⟨_, h⟩ := Option.ite_none_right_eq_some.mp h
    cases h
    exact .token _ rfl
  | revoke thread token =>
    have ⟨hi, h⟩ := Option.ite_none_right_eq_some.mp h
    split at h
    case isTrue hp  => cases h; exact .waits _ _ _ hp hi.2
    case isFalse hp => cases h; exact .revoked _ hp
  | wake thread =>
    unfold step at h
    dsimp only at h
    split at h
    case h_2 => cases h
    case h_1 hw =>
      have ⟨hp, h⟩ := Option.ite_none_left_eq_some.mp h
      cases h
      exact .wakes _ hw hp
  | execute thread grant action resourceType attributes =>
    have ⟨hi, h⟩ := Option.ite_none_right_eq_some.mp h
    cases s.executeAuthorized_cases grant action resourceType attributes with
    | inl hd =>
      have ⟨_, he⟩ := hd
      rw [he] at h
      cases h
      exact .denied rfl
    | inr hr =>
      have ⟨_, _, hl, ha, he⟩ := hr
      rw [he] at h
      cases h
      exact .reserved _ _ hl ha hi.2
  | start thread f =>
    unfold step at h
    dsimp only at h
    split at h
    case h_2    => cases h
    case h_1 hs => cases h; exact .starts _ _ hs
  | finish i f =>
    have ⟨_, h⟩ := Option.ite_none_right_eq_some.mp h
    cases h
    exact .finishes _ _

theorem pendingBelow_reserve :
    (s.reserve ids).pendingBelow id = s.pendingBelow id + if id ∈ ids then 1 else 0 := by
  simp [pendingBelow, reserve, List.countP_append, List.countP_singleton]

theorem pendingBelow_finished (hr : s.reservations[i]? = some r) (hs : r.state = .pending) :
    s.pendingBelow id = (s.finished i r f).pendingBelow id + if id ∈ r.lineage then 1 else 0 := by
  have ⟨hi, hg⟩ := List.getElem?_eq_some_iff.mp hr
  have hf : f.state ≠ .pending := by cases f <;> simp [Finish.state]
  have hle : (if id ∈ r.lineage then 1 else 0) ≤ s.pendingBelow id := by
    split
    case isFalse   => exact Nat.zero_le _
    case isTrue hm =>
      exact List.countP_pos_iff.mpr ⟨r, List.mem_of_getElem? hr, by simp [hs, hm]⟩
  have := List.countP_set (p := fun r : StartReservation => decide (r.state = .pending ∧ id ∈ r.lineage))
    (l := s.reservations) (a := { r with state := f.state }) hi
  simp only [hg, hs, hf, false_and, true_and, decide_false, Bool.false_eq_true, if_false,
    decide_eq_true_eq] at this
  have he : (s.finished i r f).pendingBelow id = s.pendingBelow id - if id ∈ r.lineage then 1 else 0 := this
  rw [he, Nat.sub_add_cancel hle]

-- Every counter is in step with the reservations, a reservation that has not started yet belongs to a
-- thread that is about to start it, and a call of `revoke` that waits has set its flag.
structure Sound (s : Revocations) : Prop where
  nodup  : ∀ r ∈ s.reservations, r.lineage.Nodup
  counts : ∀ id, s.pendingStarts id = s.pendingBelow id
  owners : ∀ i r, s.reservations[i]? = some r → r.state = .pending → ∃ thread, s.threads thread = .starting i
  waits  : ∀ thread token changed, s.threads thread = .waiting token changed → token.id ∈ s.events

namespace Sound

theorem init : init.Sound where
  nodup  := fun _ h => absurd h List.not_mem_nil
  counts := fun _ => rfl
  owners := fun _ _ h => by cases h
  waits  := fun _ _ _ h => by cases h

theorem flag (h : s.Sound) : Sound { s with events := insert id s.events } where
  nodup         := h.nodup
  counts        := h.counts
  owners        := h.owners
  waits _ _ _ w := Finset.mem_insert_of_mem (h.waits _ _ _ w)

theorem moveTo (h : s.Sound) (started : ∀ i r, s.threads thread = .starting i →
    s.reservations[i]? = some r → r.state ≠ .pending)
    (flagged : ∀ token changed, next = .waiting token changed → token.id ∈ s.events) :
    (s.moveTo thread next).Sound where
  nodup  := h.nodup
  counts := h.counts
  owners := by
    intro i r hr hs
    have ⟨thread', ht⟩ := h.owners i r hr hs
    refine ⟨thread', ?_⟩
    rw [moveTo_threads, if_neg, ht]
    intro he
    exact started i r (he ▸ ht) hr hs
  waits  := by
    intro thread' token changed hw
    rw [moveTo_threads] at hw
    split at hw
    · exact flagged token changed hw
    · exact h.waits _ _ _ hw

theorem reserved (h : s.Sound) (nodup : ids.Nodup) (idle : s.threads thread = .idle) :
    ((s.reserve ids).moveTo thread (.starting s.reservations.length)).Sound where
  nodup  := by
    intro r hr
    cases List.mem_append.mp hr with
    | inl hr => exact h.nodup r hr
    | inr hr => exact List.mem_singleton.mp hr ▸ nodup
  counts := by
    intro id
    have hc : (s.reserve ids).pendingStarts id = _ := addPending_apply nodup
    have he : ((s.reserve ids).moveTo thread (.starting s.reservations.length)).pendingBelow id =
        (s.reserve ids).pendingBelow id := rfl
    rw [moveTo_pendingStarts, hc, h.counts, he, pendingBelow_reserve]
    split <;> simp
  owners := by
    intro i r hr hs
    rw [moveTo_reservations] at hr
    by_cases hi : i < s.reservations.length
    case pos =>
      have hr : s.reservations[i]? = some r := (List.getElem?_append_left hi).symm.trans hr
      have ⟨thread', ht⟩ := h.owners i r hr hs
      refine ⟨thread', ?_⟩
      rw [moveTo_threads, if_neg]
      · exact ht
      · intro he
        cases (he ▸ ht).symm.trans idle
    case neg =>
      have hl := (List.getElem?_eq_some_iff.mp hr).1
      simp only [reserve, List.length_append, List.length_singleton] at hl
      have he : i = s.reservations.length := by omega
      exact ⟨thread, by rw [moveTo_threads, if_pos rfl, he]⟩
  waits  := by
    intro thread' token changed hw
    rw [moveTo_threads] at hw
    split at hw
    · cases hw
    · exact h.waits _ _ _ hw

theorem finish (h : s.Sound) (i : Nat) (f : Finish) : (s.finish i f).Sound := by
  cases finish_cases s i f with
  | inl hn =>
    rw [hn.1]
    exact h
  | inr hp =>
    have ⟨r, hr, hs, he⟩ := hp
    rw [he]
    refine {
      nodup  := ?_
      counts := ?_
      owners := ?_
      waits  := h.waits
    }
    · intro r' hr'
      cases List.mem_or_eq_of_mem_set hr' with
      | inl hr' => exact h.nodup r' hr'
      | inr he  => exact he ▸ h.nodup r (List.mem_of_getElem? hr)
    · intro id
      have hc : (s.finished i r f).pendingStarts id = _ := addPending_apply (h.nodup r (List.mem_of_getElem? hr))
      rw [hc, h.counts, pendingBelow_finished hr hs (f := f)]
      split <;> simp
    · intro j r' hr' hs'
      have hr' : (s.reservations.set i { r with state := f.state })[j]? = some r' := hr'
      rw [List.getElem?_set] at hr'
      split at hr'
      case isFalse => exact h.owners j r' hr' hs'
      case isTrue  =>
        have ⟨_, he⟩ := Option.ite_none_right_eq_some.mp hr'
        cases he
        cases f <;> cases hs'

-- A reservation that the thread has started
theorem starts (h : s.Sound) (starting : s.threads thread = .starting i) :
    ((s.finish i f).moveTo thread .idle).Sound := by
  refine (h.finish i f).moveTo (fun j r ht hr => ?_) fun _ _ h => by cases h
  cases finish_cases s i f with
  | inl hn =>
    rw [hn.1] at ht hr
    cases starting.symm.trans ht
    exact hn.2 r hr
  | inr hp =>
    have ⟨r', hr', _, he⟩ := hp
    rw [he] at ht hr
    cases starting.symm.trans ht
    have ⟨hi, _⟩ := List.getElem?_eq_some_iff.mp hr'
    have hr : (s.reservations.set i { r' with state := f.state })[i]? = some r := hr
    rw [List.getElem?_set_self hi] at hr
    cases hr
    cases f <;> simp [Finish.state]

theorem step (h : s.Sound) (hs : s.step a = some s') : s'.Sound := by
  cases step_effect hs with
  | token | denied => exact ⟨h.nodup, h.counts, h.owners, h.waits⟩
  | revoked        => exact h.flag
  | waits thread token changed _ idle =>
    refine h.flag.moveTo (fun i _ ht => ?_) fun _ _ he => ?_
    · cases idle.symm.trans ht
    · cases he
      exact Finset.mem_insert_self _ _
  | wakes thread waiting =>
    refine h.moveTo (fun i _ ht => ?_) fun _ _ he => by cases he
    cases waiting.symm.trans ht
  | reserved thread ids lineage _ idle => exact h.reserved (RevocationToken.lineage_nodup lineage).1 idle
  | starts thread i starting           => exact h.starts starting
  | finishes i f                       => exact h.finish i f

theorem of_reachable (r : system.Reachable s) : s.Sound :=
  r.invariant (fun {s} hi => by
    have hi : s = .init := hi
    exact hi ▸ init) fun _ h hs => h.step hs

theorem started (h : s.Sound) (hn : ¬0 < s.pendingStarts id) (hr : r ∈ s.reservations)
    (hm : id ∈ r.lineage) : r.state ≠ .pending := by
  intro hs
  have hp : 0 < s.pendingBelow id := List.countP_pos_iff.mpr ⟨r, hr, by simp [hs, hm]⟩
  exact hn (h.counts id ▸ Int.natCast_pos.mpr hp)

end Sound

-- The revocation of a token is through: its flag is set, and no start below it is pending.
structure Barrier (s : Revocations) (id : Nat) : Prop where
  flag    : id ∈ s.events
  started : ∀ r ∈ s.reservations, id ∈ r.lineage → r.state ≠ .pending

namespace Barrier

theorem of_returns (h : s.Sound) (hr : s.returns a = some token) (hs : s.step a = some s') :
    s'.Barrier token.id := by
  cases step_effect hs with
  | token _ quiet | denied quiet => cases quiet.symm.trans hr
  | reserved | starts | finishes => cases hr
  | revoked token' none          =>
    cases (if_neg none).symm.trans hr
    exact ⟨Finset.mem_insert_self _ _, fun _ => h.started none⟩
  | waits _ _ _ some             => cases (if_pos some).symm.trans hr
  | wakes thread waiting none    =>
    simp only [returns, waiting] at hr
    cases hr
    exact ⟨h.waits _ _ _ waiting, fun _ => h.started none⟩

theorem finish (b : s.Barrier id) (i : Nat) (f : Finish) : (s.finish i f).Barrier id ∧
    ∀ (j : Nat) (r : StartReservation), (s.finish i f).reservations[j]? = some r → id ∈ r.lineage →
      s.reservations[j]? = some r := by
  cases finish_cases s i f with
  | inl hn =>
    rw [hn.1]
    exact ⟨b, fun _ _ hr _ => hr⟩
  | inr hp =>
    have ⟨r, hr, hs, he⟩ := hp
    have same (j : Nat) (r' : StartReservation) (hr' : (s.reservations.set i { r with state := f.state })[j]? = some r')
        (hm : id ∈ r'.lineage) : s.reservations[j]? = some r' := by
      rw [List.getElem?_set] at hr'
      split at hr'
      case isFalse => exact hr'
      case isTrue  =>
        have ⟨_, he⟩ := Option.ite_none_right_eq_some.mp hr'
        cases he
        exact absurd hs (b.started r (List.mem_of_getElem? hr) hm)
    rw [he]
    refine ⟨⟨b.flag, fun r' hr' hm => ?_⟩, same⟩
    have ⟨j, hj⟩ := List.mem_iff_getElem?.mp hr'
    exact b.started r' (List.mem_of_getElem? (same j r' hj hm)) hm

theorem step (b : s.Barrier id) (hs : s.step a = some s') : s'.Barrier id ∧
    ∀ (i : Nat) (r : StartReservation), s'.reservations[i]? = some r → id ∈ r.lineage →
      s.reservations[i]? = some r := by
  cases step_effect hs with
  | token | denied | wakes => exact ⟨⟨b.flag, b.started⟩, fun _ _ hr _ => hr⟩
  | revoked | waits        => exact ⟨⟨Finset.mem_insert_of_mem b.flag, b.started⟩, fun _ _ hr _ => hr⟩
  | starts thread i        => exact ⟨⟨(b.finish i _).1.flag, (b.finish i _).1.started⟩, (b.finish i _).2⟩
  | finishes i f           => exact b.finish i f
  | reserved thread ids lineage active =>
    have apart : id ∉ ids := fun hm => active id hm b.flag
    constructor
    · refine ⟨b.flag, fun r hr hm => ?_⟩
      cases List.mem_append.mp hr with
      | inl hr => exact b.started r hr hm
      | inr hr =>
        cases List.mem_singleton.mp hr
        exact absurd hm apart
    · intro i r hr hm
      have hr : (s.reservations ++ [⟨ids, .pending⟩])[i]? = some r := hr
      rw [List.getElem?_append] at hr
      split at hr
      case isTrue  => exact hr
      case isFalse =>
        cases List.mem_singleton.mp (List.mem_of_getElem? hr)
        exact absurd hm apart

theorem run {as : List Action} (b : s.Barrier id) (h : system.run s as = some s') : s'.Barrier id :=
  TransitionSystem.run_preserves (I := (Barrier · id)) (fun b hs => (b.step hs).1) b h

theorem denies (b : s.Barrier id) {grant : AgentGrant} (hl : grant.revocation.lineage [] = some ids)
    (hm : id ∈ ids) (action resourceType : String) (attributes : Option Attributes) :
    authorize s.events grant action resourceType attributes = decision grant false "grant_revoked" := by
  refine if_pos <| RevocationToken.revoked_iff.mpr fun ids' hl' => ⟨id, ?_, b.flag⟩
  cases hl.symm.trans hl'
  exact hm

end Barrier

-- The threads that are about to start a reservation below a token let its `revoke` return.
theorem unblocks {s : Revocations} (h : s.Sound) {changed : Bool} (hw : s.threads thread = .waiting token changed) (f : Finish) :
    ∃ as s', (∀ a ∈ as, ∃ p, a = .start p f) ∧ system.run s as = some s' ∧
      (s'.step (.wake thread)).isSome := by
  by_cases hn : 0 < s.pendingStarts token.id
  case neg => exact ⟨[], s, fun _ h => absurd h List.not_mem_nil, rfl, by simp [step, hw, hn]⟩
  case pos =>
    have hc : 0 < s.pendingBelow token.id := Int.natCast_pos.mp (h.counts token.id ▸ hn)
    have ⟨r, hr, hp⟩ := List.countP_pos_iff.mp hc
    simp only [decide_eq_true_eq] at hp
    have ⟨i, hi⟩ := List.mem_iff_getElem?.mp hr
    have ⟨p, ht⟩ := h.owners i r hi hp.1
    have he : s.finish i f = s.finished i r f := by
      cases finish_cases s i f with
      | inl hn => exact absurd hp.1 (hn.2 r hi)
      | inr hf =>
        have ⟨r', hr', _, he⟩ := hf
        cases hi.symm.trans hr'
        exact he
    have hs : system.step s (.start p f) = some ((s.finish i f).moveTo p .idle) := by
      simp [system, step, ht]
    have hlt : ((s.finish i f).moveTo p .idle).pendingBelow token.id < s.pendingBelow token.id := by
      rw [he, pendingBelow_finished (f := f) hi hp.1, if_pos hp.2]
      exact Nat.lt_succ_self _
    have hw' : ((s.finish i f).moveTo p .idle).threads thread = .waiting token changed := by
      rw [moveTo_threads, if_neg, he]
      · exact hw
      · intro heq
        cases (heq ▸ ht).symm.trans hw
    have ⟨as, s', has, hrun, hwake⟩ := unblocks (h.starts ht) hw' f
    refine ⟨.start p f :: as, s', fun a ha => ?_, ?_, hwake⟩
    · cases List.mem_cons.mp ha with
      | inl ha => exact ⟨p, ha⟩
      | inr ha => exact has a ha
    · rw [TransitionSystem.run_cons, hs]
      exact hrun
termination_by s.pendingBelow token.id

theorem revocation_barrier (r : system.Reachable s) :
    (∀ token ∈ s.tokens, s.pendingStarts token.id =
      s.reservations.countP fun r => r.state = .pending ∧ token.id ∈ r.lineage) ∧
    (∀ {a token s₁ as s₂}, s.returns a = some token → s.step a = some s₁ →
      system.run s₁ as = some s₂ →
      (∀ r ∈ s₂.reservations, token.id ∈ r.lineage → r.state ≠ .pending) ∧
      (∀ {a' s₃} {i : Nat} {r}, s₂.step a' = some s₃ → s₃.reservations[i]? = some r →
        token.id ∈ r.lineage → s₂.reservations[i]? = some r) ∧
      ∀ grant ids action resourceType attributes, grant.revocation.lineage [] = some ids → token.id ∈ ids →
        authorize s₂.events grant action resourceType attributes = decision grant false "grant_revoked") ∧
    (∀ {thread token changed} f, s.threads thread = .waiting token changed →
      ∃ as s', (∀ a ∈ as, ∃ p, a = .start p f) ∧ system.run s as = some s' ∧
        (s'.step (.wake thread)).isSome) := by
  have sound := Sound.of_reachable r
  refine ⟨fun token _ => sound.counts token.id, ?_, fun f hw => unblocks sound hw f⟩
  intro a token s₁ as s₂ hr hs hrun
  have barrier := (Barrier.of_returns sound hr hs).run hrun
  refine ⟨barrier.started, fun hs hi hm => (barrier.step hs).2 _ _ hi hm, ?_⟩
  exact fun grant ids action resourceType attributes hl hm => barrier.denies hl hm action resourceType attributes

namespace Sample

-- The worker is about to start when the token of the lead is revoked.
def actions : List Action :=
  [.create 0, .child (.root 0) 1,
    .execute 1 Authorization.Sample.worker "read" "workspace_path" (some [("path", "src/app/x")]),
    .revoke 2 (.root 0)]

end Sample

theorem revocation_barrier_child : ∃ s s' s'', system.run .init Sample.actions = some s ∧
    s.threads 2 = .waiting (.root 0) true ∧ s.pendingStarts 0 = 1 ∧
    s.step (.start 1 .enter) = some s' ∧ s'.step (.wake 2) = some s'' ∧
    ∀ r ∈ s''.reservations, 0 ∈ r.lineage → r.state ≠ .pending := by
  have waits : (system.run .init Sample.actions).map (fun s => (s.threads 2, s.pendingStarts 0)) =
      some (.waiting (.root 0) true, 1) := by decide +kernel
  have ⟨s, hs, waits⟩ := Option.map_eq_some_iff.mp waits
  have returns : ((system.run .init Sample.actions).bind (·.step (.start 1 .enter))).map
      (fun s => (s.returns (.wake 2), (s.step (.wake 2)).isSome)) = some (some (.root 0), true) := by
    decide +kernel
  rw [hs, Option.bind_some] at returns
  have ⟨s', hs', returns⟩ := Option.map_eq_some_iff.mp returns
  have ⟨returns, hw⟩ := Prod.mk.inj returns
  have ⟨s'', hs''⟩ := Option.isSome_iff_exists.mp hw
  have initial : system.init init := rfl
  have started : system.step s (.start 1 .enter) = some s' := hs'
  have reachable := TransitionSystem.Reachable.step (.intro initial hs) started
  have ⟨_, barrier, _⟩ := revocation_barrier reachable
  have ⟨started, _⟩ := barrier returns hs'' (TransitionSystem.run_nil (M := system))
  have ⟨waiting, pending⟩ := Prod.mk.inj waits
  exact ⟨s, s', s'', hs, waiting, pending, hs', hs'', started⟩

end Revocations
end Authorization
