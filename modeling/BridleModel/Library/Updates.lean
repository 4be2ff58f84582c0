import Mathlib.Data.List.Nodup
import Mathlib.Logic.Function.Basic

-- A list of updates of a function, made one after the other.
namespace Updates

variable {α κ ν : Type*} [DecidableEq κ] {key : α → κ} {value : α → ν} {f : κ → ν} {k : κ}
  {a : α} {as before after : List α}

def updates (key : α → κ) (value : α → ν) (as : List α) (f : κ → ν) : κ → ν :=
  as.foldl (fun f a => Function.update f (key a) (value a)) f

theorem updates_append : updates key value (before ++ after) f = updates key value after (updates key value before f) :=
  List.foldl_append

theorem updates_of_forall_ne (h : ∀ a ∈ as, key a ≠ k) : updates key value as f k = f k := by
  induction as generalizing f with
  | nil          => rfl
  | cons a as hi =>
    have ha : key a ≠ k := h a List.mem_cons_self
    rw [updates, List.foldl_cons, ← updates, hi fun b hb => h b (List.mem_cons_of_mem a hb),
      Function.update_of_ne ha.symm]

-- The last update of a key decides.
theorem updates_last (h : ∀ b ∈ after, key b ≠ key a) :
    updates key value (before ++ a :: after) f (key a) = value a := by
  rw [updates_append, updates, List.foldl_cons, ← updates, updates_of_forall_ne h, Function.update_self]

-- A list without an element of this kind, or the last one of it
theorem exists_last (p : α → Prop) (as : List α) : (∀ a ∈ as, ¬p a) ∨
    ∃ before a after, as = before ++ a :: after ∧ p a ∧ ∀ b ∈ after, ¬p b := by
  classical
  induction as with
  | nil          => exact .inl fun _ h => absurd h List.not_mem_nil
  | cons a as hi =>
    cases hi with
    | inr h =>
      obtain ⟨before, b, after, rfl, hb, hafter⟩ := h
      exact .inr ⟨a :: before, b, after, rfl, hb, hafter⟩
    | inl h =>
      by_cases ha : p a
      case pos => exact .inr ⟨[], a, as, rfl, ha, h⟩
      case neg => exact .inl (List.forall_mem_cons.mpr ⟨ha, h⟩)

-- Two places of one list
theorem split_cases {before' after' : List α} {b : α} (h : before ++ a :: after = before' ++ b :: after') :
    b ∈ after ∨ a ∈ after' ∨ a = b := by
  cases List.append_eq_append_iff.mp h with
  | inl h =>
    obtain ⟨cs, _, hc⟩ := h
    cases cs with
    | nil       => exact .inr (.inr (List.cons.inj hc).1)
    | cons c cs =>
      obtain ⟨_, rfl⟩ := List.cons.inj hc
      exact .inl (List.mem_append_right _ List.mem_cons_self)
  | inr h =>
    obtain ⟨cs, _, hc⟩ := h
    cases cs with
    | nil       => exact .inr (.inr (List.cons.inj hc).1.symm)
    | cons c cs =>
      obtain ⟨_, rfl⟩ := List.cons.inj hc
      exact .inr (.inl (List.mem_append_right _ List.mem_cons_self))

section Local

variable {apply : (κ → ν) → α → κ → ν} {touches : α → List κ}

-- Changes of a function that each read and write their own keys
structure Local (apply : (κ → ν) → α → κ → ν) (touches : α → List κ) : Prop where
  frame : ∀ f a k, k ∉ touches a → apply f a k = f k
  reads : ∀ f g a, (∀ k ∈ touches a, f k = g k) → ∀ k ∈ touches a, apply f a k = apply g a k

theorem Local.foldl_of_not_mem (h : Local apply touches) (hk : ∀ a ∈ as, k ∉ touches a) :
    as.foldl apply f k = f k := by
  induction as generalizing f with
  | nil          => rfl
  | cons a as hi =>
    rw [List.foldl_cons, hi fun b hb => hk b (List.mem_cons_of_mem a hb)]
    exact h.frame f a k (hk a List.mem_cons_self)

-- Apart from each other, each of them is applied as to the function at the start.
theorem Local.foldl_of_mem (h : Local apply touches) (nodup : (as.flatMap touches).Nodup) (ha : a ∈ as)
    (hk : k ∈ touches a) : as.foldl apply f k = apply f a k := by
  induction as generalizing f with
  | nil          => cases ha
  | cons b as hi =>
    rw [List.flatMap_cons, List.nodup_append'] at nodup
    obtain ⟨_, hn, hd⟩ := nodup
    rw [List.foldl_cons]
    cases List.mem_cons.mp ha with
    | inl ha =>
      subst ha
      exact h.foldl_of_not_mem fun c hc hkc => hd hk (List.mem_flatMap.mpr ⟨c, hc, hkc⟩)
    | inr ha =>
      rw [hi hn ha]
      refine h.reads _ _ a (fun k' hk' => h.frame f b k' fun hb => ?_) k hk
      exact hd hb (List.mem_flatMap.mpr ⟨a, ha, hk'⟩)

end Local

end Updates
