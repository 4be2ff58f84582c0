import Mathlib.Data.List.Infix
import Mathlib.Order.BoundedOrder.Lattice

-- A store of values under keys, whose log tells which keys have changed, and a copy of the store that is brought up to
-- date along the log. The log only grows; the copy has read it up to some position.
namespace ChangeFeed

variable {ε κ α : Type*} {covers : ε → κ → Prop} {watched : κ → Prop} {log log' log'' : List ε} {m n : Nat} {k : κ}

section Log

-- After position `n` the log tells of the key.
def Pending (covers : ε → κ → Prop) (log : List ε) (n : Nat) (k : κ) : Prop :=
  ∃ e ∈ log.drop n, covers e k

theorem Pending.mono (h : Pending covers log n k) (hn : m ≤ n) : Pending covers log m k := by
  have ⟨e, he, hc⟩ := h
  rw [← Nat.add_sub_of_le hn, ← List.drop_drop] at he
  exact ⟨e, List.mem_of_mem_drop he, hc⟩

theorem Pending.extend (h : Pending covers log n k) (hl : log <+: log') : Pending covers log' n k := by
  have ⟨e, he, hc⟩ := h
  exact ⟨e, (hl.drop n).subset he, hc⟩

theorem not_pending_of_le (h : log.length ≤ n) : ¬Pending covers log n k := by
  intro ⟨e, he, _⟩
  rw [List.drop_eq_nil_of_le h] at he
  cases he

-- What the log tells after `n` is on the page that is read there, or comes after it.
theorem Pending.page (h : Pending covers log n k) :
    (∃ e ∈ (log.drop n).take m, covers e k) ∨ Pending covers log (n + m) k := by
  have ⟨e, he, hc⟩ := h
  rw [← List.take_append_drop m (log.drop n), List.drop_drop, List.mem_append] at he
  exact he.imp (⟨e, ·, hc⟩) (⟨e, ·, hc⟩)

end Log

section Store

variable {store store' store'' copy copy' : κ → α}

-- Between two moments the log tells of every watched key that changes.
structure Told (covers : ε → κ → Prop) (watched : κ → Prop) (log log' : List ε) (store store' : κ → α) : Prop where
  grows : log <+: log'
  tells : ∀ k, watched k → store' k = store k ∨ Pending covers log' log.length k

theorem Told.refl : Told covers watched log log store store where
  grows     := List.prefix_rfl
  tells _ _ := .inl rfl

theorem Told.trans (h : Told covers watched log log' store store')
    (h' : Told covers watched log' log'' store' store'') :
    Told covers watched log log'' store store'' where
  grows      := h.grows.trans h'.grows
  tells k hk := by
    cases h'.tells k hk with
    | inr hp => exact .inr (hp.mono h.grows.length_le)
    | inl he =>
      rw [he]
      exact (h.tells k hk).imp_right (·.extend h'.grows)

-- Of a watched key the copy has the value of the store, or the log still has to tell.
def Follows (covers : ε → κ → Prop) (watched : κ → Prop) (log : List ε) (n : Nat) (store copy : κ → α) : Prop :=
  ∀ k, watched k → copy k = store k ∨ Pending covers log n k

theorem Follows.mono (h : Follows covers watched log n store copy) (hn : m ≤ n) :
    Follows covers watched log m store copy :=
  fun k hk => (h k hk).imp_right (·.mono hn)

theorem Follows.told (h : Follows covers watched log n store copy) (hn : n ≤ log.length)
    (ht : Told covers watched log log' store store') : Follows covers watched log' n store' copy := by
  intro k hk
  cases h k hk with
  | inr hp => exact .inr (hp.extend ht.grows)
  | inl he =>
    rw [he]
    exact (ht.tells k hk).imp Eq.symm (·.mono hn)

theorem Follows.caughtUp (h : Follows covers watched log n store copy) (hn : log.length ≤ n) (hk : watched k) :
    copy k = store k :=
  (h k hk).resolve_right (not_pending_of_le hn)

end Store

section Refetch

variable [SemilatticeSup α] {store store' copy copy' part : κ → α} {dropped here : κ → Prop}

-- The copy while it is brought up to date: it has let go of the dropped keys, and may have part of their values again.
def Refetches (covers : ε → κ → Prop) (watched dropped : κ → Prop) (log : List ε) (n : Nat) (store copy : κ → α) :
    Prop :=
  ∀ k, watched k → Pending covers log n k ∨ (copy k ≤ store k ∧ (¬dropped k → copy k = store k))

theorem Refetches.of_follows (h : Follows covers watched log n store copy) :
    Refetches covers watched (fun _ => False) log n store copy :=
  fun k hk => (h k hk).symm.imp_right fun he => ⟨he.le, fun _ => he⟩

theorem Refetches.follows (h : Refetches covers watched dropped log n store copy) (hd : ∀ k, ¬dropped k) :
    Follows covers watched log n store copy :=
  fun k hk => (h k hk).symm.imp_left fun hc => hc.right (hd k)

theorem Refetches.told (h : Refetches covers watched dropped log n store copy) (hn : n ≤ log.length)
    (ht : Told covers watched log log' store store') : Refetches covers watched dropped log' n store' copy := by
  intro k hk
  cases h k hk with
  | inl hp => exact .inl (hp.extend ht.grows)
  | inr hc =>
    cases ht.tells k hk with
    | inr hp => exact .inl (hp.mono hn)
    | inl he =>
      rw [he]
      exact .inr hc

-- A page of the log is read: the copy lets go of the keys that it tells of.
theorem Refetches.page [OrderBot α] (h : Refetches covers watched dropped log n store copy)
    (hdrop : ∀ k, (∃ e ∈ (log.drop n).take m, covers e k) → copy' k = ⊥)
    (hkeep : ∀ k, ¬(∃ e ∈ (log.drop n).take m, covers e k) → copy' k = copy k) :
    Refetches covers watched (fun k => dropped k ∨ ∃ e ∈ (log.drop n).take m, covers e k) log (n + m) store copy' := by
  intro k hk
  by_cases hc : ∃ e ∈ (log.drop n).take m, covers e k
  case pos =>
    rw [hdrop k hc]
    exact .inr ⟨bot_le, fun hn => absurd (.inr hc) hn⟩
  case neg =>
    rw [hkeep k hc]
    cases h k hk with
    | inl hp => exact .inl (hp.page.resolve_left hc)
    | inr hr => exact .inr ⟨hr.left, fun hn => hr.right fun hd => hn (.inl hd)⟩

-- Values of the store are joined to the copy, among them those of the keys `here`.
theorem Refetches.join (h : Refetches covers watched dropped log n store copy) (hpart : ∀ k, part k ≤ store k)
    (hfull : ∀ k, here k → part k = store k) (hcopy : ∀ k, copy k ≤ store k → copy' k = copy k ⊔ part k) :
    Refetches covers watched (fun k => dropped k ∧ ¬here k) log n store copy' := by
  intro k hk
  refine (h k hk).imp_right fun ⟨hle, he⟩ => ?_
  rw [hcopy k hle]
  refine ⟨sup_le hle (hpart k), fun hd => ?_⟩
  by_cases hh : here k
  case pos => rw [hfull k hh, sup_of_le_right hle]
  case neg =>
    rw [he fun hd' => hd ⟨hd', hh⟩]
    exact sup_of_le_left (hpart k)

end Refetch
end ChangeFeed
