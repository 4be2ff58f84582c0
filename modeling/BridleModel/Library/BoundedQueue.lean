import Mathlib.Data.List.Induction

-- A bounded queue that makes room for a new element by dropping its oldest one. What was put into it divides into
-- what has left it, taken or dropped, and what is still in it.
namespace BoundedQueue

variable {α : Type*} {capacity : Nat} {a : α} {queue sent taken skipped rest : List α} {wanted : α → Bool}

def put (capacity : Nat) (queue : List α) (a : α) : List α :=
  (if capacity ≤ queue.length then queue.tail else queue) ++ [a]

theorem put_sublist : (put capacity queue a).Sublist (queue ++ [a]) := by
  rw [put]
  split
  case isTrue  => exact (List.tail_sublist queue).append (List.Sublist.refl _)
  case isFalse => exact List.Sublist.refl _

-- What a reader of the wanted elements has taken, and what has left the queue without it: an element that was
-- wanted has been followed by as many others as the queue has room for.
structure Reads (capacity : Nat) (wanted : α → Bool) (sent taken queue : List α) (gone : List α) : Prop where
  split   : sent = gone ++ queue
  inOrder : taken.Sublist (gone.filter wanted)
  dropped : ∀ {before after a}, gone = before ++ a :: after → wanted a = true →
    a ∈ taken ∨ capacity ≤ (after ++ queue).length

theorem reads_nil : Reads capacity wanted [] [] [] [] where
  split     := rfl
  inOrder   := List.Sublist.refl _
  dropped h := by simp at h

-- The elements of a list that has grown at its end
theorem split_concat {before after gone : List α} {b : α} (h : gone ++ [b] = before ++ a :: after) :
    (∃ after', after = after' ++ [b] ∧ gone = before ++ a :: after') ∨ (after = [] ∧ a = b ∧ gone = before) := by
  cases after using List.reverseRecOn with
  | nil                     =>
    obtain ⟨hg, hb⟩ := List.append_inj' h rfl
    exact .inr ⟨rfl, (List.cons.inj hb).1.symm, hg⟩
  | append_singleton after c =>
    rw [← List.cons_append, ← List.append_assoc] at h
    obtain ⟨hg, hb⟩ := List.append_inj' h rfl
    exact .inl ⟨after, by rw [(List.cons.inj hb).1], hg⟩

namespace Reads

variable {gone : List α}

-- An element leaves the queue without being taken.
theorem leave {b : α} (h : Reads capacity wanted sent taken (b :: queue) gone)
    (hb : wanted b = true → capacity ≤ queue.length) : Reads capacity wanted sent taken queue (gone ++ [b]) where
  split   := by rw [h.split, List.append_assoc, List.singleton_append]
  inOrder := h.inOrder.trans ((List.sublist_append_left gone [b]).filter _)
  dropped := by
    intro before after a hs hw
    cases split_concat hs with
    | inl hs =>
      obtain ⟨after', rfl, hg⟩ := hs
      rw [List.append_assoc, List.singleton_append]
      exact h.dropped hg hw
    | inr hs =>
      obtain ⟨rfl, rfl, _⟩ := hs
      exact .inr (hb hw)

theorem take {b : α} (h : Reads capacity wanted sent taken (b :: queue) gone) (hb : wanted b = true) :
    Reads capacity wanted sent (taken ++ [b]) queue (gone ++ [b]) where
  split   := by rw [h.split, List.append_assoc, List.singleton_append]
  inOrder := by
    rw [List.filter_append, List.filter_cons_of_pos hb, List.filter_nil]
    exact h.inOrder.append (List.Sublist.refl _)
  dropped := by
    intro before after a hs hw
    cases split_concat hs with
    | inl hs =>
      obtain ⟨after', rfl, hg⟩ := hs
      rw [List.append_assoc, List.singleton_append]
      exact (h.dropped hg hw).imp_left (List.mem_append_left _)
    | inr hs =>
      obtain ⟨rfl, rfl, _⟩ := hs
      exact .inl (List.mem_append_right _ List.mem_cons_self)

theorem skip (h : Reads capacity wanted sent taken (skipped ++ rest) gone) (hs : ∀ a ∈ skipped, wanted a = false) :
    Reads capacity wanted sent taken rest (gone ++ skipped) := by
  induction skipped generalizing gone with
  | nil          => simpa using h
  | cons b bs hi =>
    have hl := h.leave fun hb => by
      rw [hs b List.mem_cons_self] at hb
      contradiction
    have hr := hi hl fun a ha => hs a (List.mem_cons_of_mem _ ha)
    rwa [List.append_assoc, List.singleton_append] at hr

theorem concat (h : Reads capacity wanted sent taken queue gone) :
    Reads capacity wanted (sent ++ [a]) taken (queue ++ [a]) gone where
  split         := by rw [h.split, List.append_assoc]
  inOrder       := h.inOrder
  dropped hs hw := (h.dropped hs hw).imp_right fun hl => by
    rw [← List.append_assoc, List.length_append]
    omega

theorem put (h : Reads capacity wanted sent taken queue gone) (hc : 0 < capacity) :
    ∃ gone', Reads capacity wanted (sent ++ [a]) taken (put capacity queue a) gone' := by
  rw [BoundedQueue.put]
  split
  case isFalse => exact ⟨gone, h.concat⟩
  case isTrue hf =>
    cases queue with
    | nil          => exact absurd hf (by simp; omega)
    | cons b queue =>
      refine ⟨gone ++ [b], h.concat.leave fun _ => ?_⟩
      simpa using hf

-- An element is taken, still in the queue, or overrun.
theorem fate {before after : List α} (h : Reads capacity wanted sent taken queue gone)
    (hs : sent = before ++ a :: after) (hw : wanted a = true) :
    a ∈ taken ∨ a ∈ queue ∨ capacity ≤ after.length := by
  have hs := h.split.symm.trans hs
  cases List.append_eq_append_iff.mp hs with
  | inl hs =>
    obtain ⟨_, _, rfl⟩ := hs
    exact .inr (.inl (List.mem_append_right _ List.mem_cons_self))
  | inr hs =>
    obtain ⟨mid, hg, hm⟩ := hs
    cases mid with
    | nil      =>
      obtain rfl := hm
      exact .inr (.inl List.mem_cons_self)
    | cons _ _ =>
      injection hm with he hm
      subst he
      cases h.dropped hg hw with
      | inl ht => exact .inl ht
      | inr hl => exact .inr (.inr (hm ▸ hl))

end Reads
end BoundedQueue
