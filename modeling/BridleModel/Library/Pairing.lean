import Mathlib.Data.List.Induction
import Mathlib.Data.List.Nodup

universe u v w

-- The greedy pairing of two lists: each element of the first one takes the first fitting element of the second one whose
-- key is still free.
namespace Pairing

variable {α : Type u} {β : Type v} {κ : Type w} [DecidableEq κ] (fits : α → β → Bool) (key : β → κ) (bs : List β)

def free (pairs : List (α × β)) (a : α) : List β :=
  bs.filter fun b => fits a b ∧ key b ∉ pairs.map fun p => key p.snd

def add (pairs : List (α × β)) (a : α) : List (α × β) :=
  match free fits key bs pairs a with
  | []     => pairs
  | b :: _ => pairs ++ [(a, b)]

def pairing (as : List α) : List (α × β) :=
  as.foldl (add fits key bs) []

-- Nobody is paired twice, and no fitting pair is left over.
structure Matches (as : List α) (pairs : List (α × β)) : Prop where
  fitting : ∀ p ∈ pairs, fits p.fst p.snd = true ∧ p.snd ∈ bs
  firsts  : (pairs.map (·.fst)).Sublist as
  seconds : (pairs.map fun p => key p.snd).Nodup
  maximal : ∀ a ∈ as, ∀ b ∈ bs, fits a b = true → a ∈ pairs.map (·.fst) ∨ key b ∈ pairs.map fun p => key p.snd

variable {fits key bs} {as : List α} {pairs : List (α × β)} {a : α}

theorem Matches.add (h : Matches fits key bs as pairs) :
    Matches fits key bs (as ++ [a]) (Pairing.add fits key bs pairs a) := by
  rw [Pairing.add]
  split
  case h_1 hf =>
    refine ⟨h.fitting, h.firsts.trans (List.sublist_append_left _ _), h.seconds, fun a' ha b hb hab => ?_⟩
    cases List.mem_append.mp ha with
    | inl ha => exact h.maximal a' ha b hb hab
    | inr ha =>
      obtain rfl := List.mem_singleton.mp ha
      have hn := List.filter_eq_nil_iff.mp hf b hb
      simp only [hab, true_and, decide_eq_true_eq, not_not] at hn
      exact .inr hn
  case h_2 b _ hf =>
    have hb : b ∈ free fits key bs pairs a := by
      rw [hf]
      exact List.mem_cons_self
    obtain ⟨hb, hc⟩ := List.mem_filter.mp hb
    obtain ⟨hab, hn⟩ := of_decide_eq_true hc
    constructor
    case fitting =>
      intro p hp
      cases List.mem_append.mp hp with
      | inl hp => exact h.fitting p hp
      | inr hp =>
        obtain rfl := List.mem_singleton.mp hp
        exact ⟨hab, hb⟩
    case firsts =>
      rw [List.map_append]
      exact h.firsts.append (List.Sublist.refl _)
    case seconds =>
      rw [List.map_append, List.nodup_append']
      refine ⟨h.seconds, List.nodup_singleton _, fun k hk hk' => ?_⟩
      obtain rfl := List.mem_singleton.mp hk'
      exact hn hk
    case maximal =>
      intro a' ha b' hb' hab'
      rw [List.map_append, List.map_append, List.mem_append, List.mem_append]
      cases List.mem_append.mp ha with
      | inl ha =>
        cases h.maximal a' ha b' hb' hab' with
        | inl h => exact .inl (.inl h)
        | inr h => exact .inr (.inl h)
      | inr ha =>
        obtain rfl := List.mem_singleton.mp ha
        exact .inl (.inr List.mem_cons_self)

theorem pairing_concat : pairing fits key bs (as ++ [a]) = add fits key bs (pairing fits key bs as) a :=
  List.foldl_append

variable (fits key bs) in
theorem matches_pairing (as : List α) : Matches fits key bs as (pairing fits key bs as) := by
  induction as using List.reverseRecOn with
  | nil                      => exact ⟨by simp [pairing], List.Sublist.refl _, List.nodup_nil, by simp⟩
  | append_singleton as a hi =>
    rw [pairing_concat]
    exact hi.add

end Pairing
