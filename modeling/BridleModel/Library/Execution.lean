import Mathlib.Data.List.Induction

-- A system takes labelled steps. A label fixes every choice the environment makes for the step
-- (arguments, clock values, random tokens), so that the step itself is a partial function.
structure TransitionSystem (σ α : Type*) where
  init : σ → Prop
  step : σ → α → Option σ

namespace TransitionSystem

variable {σ α γ : Type*} {M : TransitionSystem σ α} {s s₁ s₂ s₃ : σ} {a : α} {as bs : List α}

def run (M : TransitionSystem σ α) (s : σ) (as : List α) : Option σ :=
  as.foldlM M.step s

@[simp]
theorem run_nil : M.run s [] = some s :=
  rfl

theorem run_cons : M.run s (a :: as) = (M.step s a).bind (M.run · as) :=
  rfl

theorem run_append : M.run s (as ++ bs) = (M.run s as).bind (M.run · bs) := by
  simp [run, List.foldlM_append]

theorem run_concat : M.run s (as ++ [a]) = (M.run s as).bind (M.step · a) := by
  rw [run_append]
  congr
  funext t
  simp [run_cons]

theorem run_concat_eq_some_iff :
    M.run s₁ (as ++ [a]) = some s₃ ↔ ∃ s₂, M.run s₁ as = some s₂ ∧ M.step s₂ a = some s₃ := by
  rw [run_concat, Option.bind_eq_some_iff]

theorem run_append_eq_some_iff :
    M.run s₁ (as ++ bs) = some s₃ ↔ ∃ s₂, M.run s₁ as = some s₂ ∧ M.run s₂ bs = some s₃ := by
  rw [run_append, Option.bind_eq_some_iff]

inductive Reachable (M : TransitionSystem σ α) (s : σ) : Prop
  | intro (init : M.init s₀) (run : M.run s₀ labels = some s)

namespace Reachable

theorem init (h : M.init s) : M.Reachable s :=
  .intro h run_nil

theorem run (r : M.Reachable s₁) (h : M.run s₁ as = some s₂) : M.Reachable s₂ := by
  have ⟨hi, hr⟩ := r
  exact .intro hi <| run_append_eq_some_iff.mpr ⟨_, hr, h⟩

theorem step (r : M.Reachable s₁) (h : M.step s₁ a = some s₂) : M.Reachable s₂ := by
  have ⟨hi, hr⟩ := r
  exact .intro hi <| run_concat_eq_some_iff.mpr ⟨_, hr, h⟩

end Reachable

-- What every step preserves, every run preserves.
theorem run_preserves {I : σ → Prop} (step : ∀ {s₁ s₂ a}, I s₁ → M.step s₁ a = some s₂ → I s₂)
    (hs : I s₁) (h : M.run s₁ as = some s₂) : I s₂ := by
  induction as generalizing s₁
  case nil => exact Option.some.inj h ▸ hs
  case cons hi =>
    have ⟨_, h₁, h₂⟩ := Option.bind_eq_some_iff.mp (run_cons ▸ h)
    exact hi (step hs h₁) h₂

-- An invariant may also speak of the labels that the run has taken so far.
theorem run_induction {I : List α → σ → Prop} (nil : I [] s)
    (concat : ∀ {as a s₁ s₂}, M.run s as = some s₁ → I as s₁ → M.step s₁ a = some s₂ →
      I (as ++ [a]) s₂) (h : M.run s as = some s₁) : I as s₁ := by
  induction as using List.reverseRecOn generalizing s₁
  case nil => exact Option.some.inj h ▸ nil
  case append_singleton hi =>
    have ⟨_, hr, hs⟩ := run_concat_eq_some_iff.mp h
    exact concat hr (hi hr) hs

theorem Reachable.invariant {I : σ → Prop} (init : ∀ {s}, M.init s → I s)
    (step : ∀ {s₁ s₂ a}, M.Reachable s₁ → I s₁ → M.step s₁ a = some s₂ → I s₂)
    (r : M.Reachable s) : I s := by
  have ⟨hi, hr⟩ := r
  refine run_preserves (I := fun s => M.Reachable s ∧ I s) ?_ ⟨.init hi, init hi⟩ hr |>.right
  exact fun ⟨r, hI⟩ h => ⟨r.step h, step r hI h⟩

-- The step from `s₁` to `s₂` under `a` occurs in the run of `as` from `s₀`.
inductive Occurs (M : TransitionSystem σ α) (s₀ : σ) (as : List α) (s₁ : σ) (a : α) (s₂ : σ) : Prop
  | intro (split : as = pre ++ a :: post) (run : M.run s₀ pre = some s₁)
      (step : M.step s₁ a = some s₂)

namespace Occurs

theorem step {s₀ : σ} : M.Occurs s₀ as s₁ a s₂ → M.step s₁ a = some s₂
  | intro _ _ step => step

theorem last {s₀ : σ} (run : M.run s₀ as = some s₁) (step : M.step s₁ a = some s₂) :
    M.Occurs s₀ (as ++ [a]) s₁ a s₂ :=
  .intro rfl run step

theorem append {s₀ : σ} : M.Occurs s₀ as s₁ a s₂ → M.Occurs s₀ (as ++ bs) s₁ a s₂
  | intro split run step => .intro (by rw [split, List.append_assoc, List.cons_append]) run step

theorem cons {s₀ : σ} {b : α} (h : M.Occurs s₀ (b :: as) s₁ a s₂) :
    (s₁ = s₀ ∧ a = b) ∨ ∃ s, M.step s₀ b = some s ∧ M.Occurs s as s₁ a s₂ := by
  cases h with
  | @intro pre post split run step =>
    cases pre with
    | nil =>
      cases split
      exact .inl ⟨(Option.some.inj run).symm, rfl⟩
    | cons c pre =>
      cases split
      have ⟨s, hs, hr⟩ := Option.bind_eq_some_iff.mp (run_cons ▸ run)
      exact .inr ⟨s, hs, .intro rfl hr step⟩

theorem nil {s₀ : σ} : ¬M.Occurs s₀ [] s₁ a s₂
  | intro split _ _ => by simp at split

theorem mem {s₀ : σ} : M.Occurs s₀ as s₁ a s₂ → a ∈ as
  | intro split _ _ => split ▸ List.mem_append_right _ List.mem_cons_self

-- What the steps that occur in a run preserve holds at its end and in every state that it visits.
theorem run_invariant {I : σ → Prop} {s₀ : σ} (hs : I s₀)
    (step : ∀ {s₁ a s₂}, M.Occurs s₀ as s₁ a s₂ → I s₁ → I s₂) (h : M.run s₀ as = some s) : I s := by
  induction as using List.reverseRecOn generalizing s with
  | nil                      => exact Option.some.inj h ▸ hs
  | append_singleton as a hi =>
    obtain ⟨t, hr, ht⟩ := run_concat_eq_some_iff.mp h
    exact step (last hr ht) (hi (fun ho => step ho.append) hr)

theorem invariant {I : σ → Prop} {s₀ : σ} (hs : I s₀)
    (step : ∀ {s₁ a s₂}, M.Occurs s₀ as s₁ a s₂ → I s₁ → I s₂) : M.Occurs s₀ as s₁ a s₂ → I s₁
  | intro split run _ => run_invariant hs (fun ho => step (split ▸ ho.append)) run

-- The rest of the run
theorem rest {s₀ : σ} (ho : M.Occurs s₀ as s₁ a s₂) (h : M.run s₀ as = some s) : ∃ post, M.run s₂ post = some s := by
  cases ho with
  | @intro pre post split run step =>
    rw [split, run_append, run, Option.bind_some, run_cons, step] at h
    exact ⟨post, h⟩

theorem reachable {s₀ : σ} (hi : M.init s₀) : M.Occurs s₀ as s₁ a s₂ → M.Reachable s₁
  | intro _ run _ => .intro hi run

end Occurs

-- A check of the steps of a run, in the order in which they occur
def along (M : TransitionSystem σ α) (p : σ → α → Bool) : σ → List α → Bool
  | _, []      => true
  | s, a :: as => p s a && (M.step s a).all fun t => along M p t as

theorem Occurs.along {p : σ → α → Bool} {s₀ : σ} (h : M.Occurs s₀ as s₁ a s₂) (ha : M.along p s₀ as) :
    p s₁ a = true := by
  induction as generalizing s₀ with
  | nil          => exact absurd h nil
  | cons b bs hi =>
    obtain ⟨hb, hbs⟩ := Bool.and_eq_true_iff.mp ha
    cases h.cons with
    | inl h =>
      obtain ⟨rfl, rfl⟩ := h
      exact hb
    | inr h =>
      obtain ⟨t, ht, h⟩ := h
      rw [ht] at hbs
      exact hi h hbs

-- A history is computed along a run from the states it visits, without influence on the run.
def history (M : TransitionSystem σ α) (f : γ → σ → α → γ) (g : γ) (s : σ) : List α → γ
  | []      => g
  | a :: as =>
    match M.step s a with
    | none   => g
    | some t => history M f (f g s a) t as

section History

variable {f : γ → σ → α → γ} {g : γ}

theorem history_append (h : M.run s₁ as = some s₂) :
    M.history f g s₁ (as ++ bs) = M.history f (M.history f g s₁ as) s₂ bs := by
  induction as generalizing s₁ g
  case nil => cases h; rfl
  case cons a as hi =>
    have ⟨t, h₁, h₂⟩ := Option.bind_eq_some_iff.mp (run_cons ▸ h)
    simp [history, h₁, hi h₂]

theorem history_concat (h₁ : M.run s₁ as = some s₂) (h₂ : M.step s₂ a = some s₃) :
    M.history f g s₁ (as ++ [a]) = f (M.history f g s₁ as) s₂ a := by
  simp [history_append h₁, history, h₂]

-- An invariant may relate the state to the history of the run that led to it.
theorem history_invariant {I : γ → σ → Prop}
    (step : ∀ {g s₁ s₂ a}, I g s₁ → M.step s₁ a = some s₂ → I (f g s₁ a) s₂)
    (hs : I g s₁) (h : M.run s₁ as = some s₂) : I (M.history f g s₁ as) s₂ := by
  induction as generalizing s₁ g
  case nil => exact Option.some.inj h ▸ hs
  case cons a as hi =>
    have ⟨t, h₁, h₂⟩ := Option.bind_eq_some_iff.mp (run_cons ▸ h)
    simpa [history, h₁] using hi (step hs h₁) h₂

end History
end TransitionSystem
