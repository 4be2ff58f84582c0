import Mathlib.Data.Option.Basic

universe u v

namespace Except

variable {ε : Type u} {α β : Type v} {x : Except ε α} {f : α → Except ε β} {b : β}

theorem bind_eq_ok_iff : (x >>= f) = .ok b ↔ ∃ a, x = .ok a ∧ f a = .ok b := by
  cases x with
  | error => simp [bind, Except.bind]
  | ok    => simp [bind, Except.bind]

theorem bind_eq_error_iff {e : ε} : (x >>= f) = .error e ↔ x = .error e ∨ ∃ a, x = .ok a ∧ f a = .error e := by
  cases x with
  | error => simp [bind, Except.bind]
  | ok    => simp [bind, Except.bind]

theorem map_eq_ok_iff {g : α → β} : g <$> x = .ok b ↔ ∃ a, x = .ok a ∧ g a = b := by
  cases x with
  | error => simp [Functor.map, Except.map]
  | ok    => simp [Functor.map, Except.map]

theorem toOption_eq_some_iff {a : α} : x.toOption = some a ↔ x = .ok a := by
  cases x with
  | error => simp [Except.toOption]
  | ok    => simp [Except.toOption]

theorem mem_of_mapM {as : List α} {bs : List β} (h : as.mapM f = .ok bs) :
    b ∈ bs ↔ ∃ a ∈ as, f a = .ok b := by
  induction as generalizing bs with
  | nil           =>
    cases h
    simp
  | cons hd tl hi =>
    rw [List.mapM_cons] at h
    have ⟨c, hc, h⟩ := bind_eq_ok_iff.mp h
    have ⟨cs, hcs, h⟩ := bind_eq_ok_iff.mp h
    cases h
    simp [hi hcs, hc, eq_comm]

theorem ok_of_mapM {as : List α} {bs : List β} (h : as.mapM f = .ok bs) {a : α} (ha : a ∈ as) :
    ∃ b ∈ bs, f a = .ok b := by
  induction as generalizing bs with
  | nil           => cases ha
  | cons hd tl hi =>
    rw [List.mapM_cons] at h
    obtain ⟨c, hc, h⟩ := bind_eq_ok_iff.mp h
    obtain ⟨cs, hcs, h⟩ := bind_eq_ok_iff.mp h
    cases h
    cases List.mem_cons.mp ha with
    | inl ha => exact ⟨c, List.mem_cons_self, ha ▸ hc⟩
    | inr ha =>
      obtain ⟨b, hb, he⟩ := hi hcs ha
      exact ⟨b, List.mem_cons_of_mem _ hb, he⟩

-- A loop fails in the round of one of its elements.
theorem exists_of_mapM {as : List α} {e : ε} (h : as.mapM f = .error e) : ∃ a ∈ as, f a = .error e := by
  induction as with
  | nil           => cases h
  | cons hd tl hi =>
    rw [List.mapM_cons] at h
    cases bind_eq_error_iff.mp h with
    | inl h => exact ⟨hd, List.mem_cons_self, h⟩
    | inr h =>
      obtain ⟨_, _, h⟩ := h
      cases bind_eq_error_iff.mp h with
      | inl h =>
        obtain ⟨a, ha, he⟩ := hi h
        exact ⟨a, List.mem_cons_of_mem _ ha, he⟩
      | inr h =>
        obtain ⟨_, _, h⟩ := h
        cases h

theorem of_forM {g : α → Except ε PUnit} {as : List α} (h : as.forM g = .ok ()) {a : α} (ha : a ∈ as) :
    g a = .ok () := by
  induction as with
  | nil           => cases ha
  | cons hd tl hi =>
    have ⟨_, hc, h⟩ := bind_eq_ok_iff.mp h
    cases List.mem_cons.mp ha with
    | inl ha => exact ha ▸ hc
    | inr ha => exact hi h ha

-- What every round of a loop preserves, the loop preserves.
theorem foldlM_preserves {P : β → Prop} {g : β → α → Except ε β} {as : List α} {b₀ : β}
    (step : ∀ {b a b'}, P b → g b a = .ok b' → P b') (hb : P b₀) (h : as.foldlM g b₀ = .ok b) : P b := by
  induction as generalizing b₀ with
  | nil           => exact Except.ok.inj h ▸ hb
  | cons hd tl hi =>
    have ⟨_, h₁, h₂⟩ := bind_eq_ok_iff.mp h
    exact hi (step hb h₁) h₂

-- `if p: raise e`
def raiseIf (p : Prop) [Decidable p] (e : ε) : Except ε PUnit :=
  if p then .error e else .ok ()

@[simp]
theorem raiseIf_eq_ok_iff {p : Prop} [Decidable p] {e : ε} {u : PUnit} : raiseIf p e = .ok u ↔ ¬p := by
  unfold raiseIf
  split
  case isTrue h  => simp [h]
  case isFalse h => simp [h]

-- The value that a failed operation leaves behind: a transaction that raises is rolled back.
def orElseKeep (x : Except ε α) (keep : α) : α :=
  match x with
  | .error _ => keep
  | .ok a    => a

@[simp]
theorem orElseKeep_error {e : ε} {keep : α} : (error e : Except ε α).orElseKeep keep = keep :=
  rfl

@[simp]
theorem orElseKeep_ok {a keep : α} : (ok a : Except ε α).orElseKeep keep = a :=
  rfl

end Except
