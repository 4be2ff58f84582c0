import Mathlib.Data.List.Induction
import Mathlib.Data.List.Forall2

-- A hash chain: every record carries the digest of the record before it.
structure HashChain (α η : Type*) where
  previous : α → Option η
  digest   : α → η

namespace HashChain

variable {α η : Type*} {H : HashChain α η} {R : α → α → Prop} {p : Option η} {a b : α}
  {as bs : List α}

-- `p` is the digest of what comes before the list.
def Linked (H : HashChain α η) (p : Option η) : List α → Prop
  | []      => True
  | a :: as => H.previous a = p ∧ H.Linked (some (H.digest a)) as

def latest (H : HashChain α η) (p : Option η) : List α → Option η
  | []      => p
  | a :: as => H.latest (some (H.digest a)) as

theorem latest_concat : H.latest p (as ++ [a]) = some (H.digest a) := by
  induction as generalizing p with
  | nil          => rfl
  | cons _ _ hi => exact hi

theorem linked_concat : H.Linked p (as ++ [a]) ↔ H.Linked p as ∧ H.previous a = H.latest p as := by
  induction as generalizing p with
  | nil          => simp [Linked, latest]
  | cons _ _ hi => simp [Linked, latest, hi, and_assoc]

theorem latest_eq_none_iff : H.latest none as = none ↔ as = [] := by
  induction as using List.reverseRecOn with
  | nil                => simp [latest]
  | append_singleton => simp [latest_concat]

-- Where equal digests mean related records, and related records carry the same digest, the last digest
-- determines the chain.
theorem forall₂_of_latest_eq (injective : ∀ a ∈ as, ∀ b ∈ bs, H.digest a = H.digest b → R a b)
    (previous : ∀ {a b}, R a b → H.previous a = H.previous b) (ha : H.Linked none as)
    (hb : H.Linked none bs) (h : H.latest none as = H.latest none bs) : List.Forall₂ R as bs := by
  induction as using List.reverseRecOn generalizing bs with
  | nil =>
    cases latest_eq_none_iff.mp h.symm
    exact .nil
  | append_singleton as a hi =>
    rw [latest_concat] at h
    cases bs using List.reverseRecOn with
    | nil                   => cases h
    | append_singleton bs b =>
      rw [latest_concat] at h
      have hr : R a b := injective a (by simp) b (by simp) (Option.some.inj h)
      have ⟨ha, hpa⟩ := linked_concat.mp ha
      have ⟨hb, hpb⟩ := linked_concat.mp hb
      have hl : H.latest none as = H.latest none bs := hpa.symm.trans <| (previous hr).trans hpb
      refine List.rel_append (hi (fun a ha b hb => ?_) ha hb hl) (.cons hr .nil)
      exact injective a (List.mem_append_left _ ha) b (List.mem_append_left _ hb)

end HashChain
