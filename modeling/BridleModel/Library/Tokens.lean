import Mathlib.Data.List.Nodup
import BridleModel.Library.Execution

-- Holders of tokens in a transition system. An action may draw a token, and a token that nobody held
-- comes from the action that drew it. As long as no token is drawn twice, a holder that has lost its
-- token is the last one that ever held it.
structure Tokens {σ α κ τ : Type*} (M : TransitionSystem σ α) (Holds : σ → κ → τ → Prop)
    (draw : α → Option τ) : Prop where
  origin : M.step s a = some s' → Holds s' k t → Holds s k t ∨ draw a = some t
  unique : M.step s a = some s' → draw a = some t → (∀ k, ¬Holds s k t) →
    Holds s' k₁ t → Holds s' k₂ t → k₁ = k₂

namespace Tokens

variable {σ α κ τ : Type*} {M : TransitionSystem σ α} {Holds : σ → κ → τ → Prop}
  {draw : α → Option τ} {s s₁ s₂ s₃ : σ} {as pre mid post : List α} {k k' k₁ k₂ : κ} {t : τ}

theorem held_or_drawn (T : Tokens M Holds draw) (h : M.run s as = some s₁) (hk : Holds s₁ k t) :
    Holds s k t ∨ t ∈ as.filterMap draw := by
  induction as generalizing s
  case nil => exact .inl <| Option.some.inj h ▸ hk
  case cons a as hi =>
    have ⟨_, hs, hr⟩ := Option.bind_eq_some_iff.mp (TransitionSystem.run_cons ▸ h)
    have mem_cons {b : α} (hb : b ∈ a :: as) (hd : draw b = some t) : t ∈ (a :: as).filterMap draw :=
      List.mem_filterMap.mpr ⟨b, hb, hd⟩
    cases hi hr with
    | inr hd =>
      have ⟨b, hb, hd⟩ := List.mem_filterMap.mp hd
      exact .inr <| mem_cons (List.mem_cons_of_mem _ hb) hd
    | inl hh =>
      cases T.origin hs hh with
      | inl hh => exact .inl hh
      | inr hd => exact .inr <| mem_cons List.mem_cons_self hd

theorem one_holder (T : Tokens M Holds draw) (init : ∀ k t, ¬Holds s k t)
    (fresh : (as.filterMap draw).Nodup) (h : M.run s as = some s₁) (h₁ : Holds s₁ k₁ t)
    (h₂ : Holds s₁ k₂ t) : k₁ = k₂ := by
  revert fresh k₁ k₂
  refine TransitionSystem.run_induction (I := fun as s₁ => ∀ {k₁ k₂}, (as.filterMap draw).Nodup →
    Holds s₁ k₁ t → Holds s₁ k₂ t → k₁ = k₂) ?_ ?_ h
  · intro _ _ _ h₁
    exact absurd h₁ (init _ _)
  · intro as a s₁ s₂ hr hi hs k₁ k₂ fresh h₁ h₂
    rw [List.filterMap_append, List.nodup_append] at fresh
    have ⟨hnodup, _, hdisj⟩ := fresh
    by_cases hd : draw a = some t
    case neg =>
      have old {k} (hk : Holds s₂ k t) : Holds s₁ k t := (T.origin hs hk).resolve_right hd
      exact hi hnodup (old h₁) (old h₂)
    case pos =>
      refine T.unique hs hd (fun k hk => ?_) h₁ h₂
      have hm := (T.held_or_drawn hr hk).resolve_left (init _ _)
      exact hdisj t hm t (by simp [hd]) rfl

theorem superseded (T : Tokens M Holds draw) (init : ∀ k t, ¬Holds s k t)
    (fresh : ((pre ++ mid ++ post).filterMap draw).Nodup) (h₁ : M.run s pre = some s₁)
    (h₂ : M.run s₁ mid = some s₂) (h₃ : M.run s₂ post = some s₃) (held : Holds s₁ k t)
    (lost : ¬Holds s₂ k t) : ¬Holds s₃ k' t := by
  rw [List.append_assoc, List.filterMap_append, List.nodup_append] at fresh
  have ⟨hnodup, _, hdisj⟩ := fresh
  have hm := (T.held_or_drawn h₁ held).resolve_left (init _ _)
  have hn : t ∉ (mid ++ post).filterMap draw := fun h => hdisj t hm t h rfl
  intro h
  have h₂₃ := TransitionSystem.run_append_eq_some_iff.mpr ⟨_, h₂, h₃⟩
  have hk' := (T.held_or_drawn h₂₃ h).resolve_right hn
  cases T.one_holder init hnodup h₁ held hk'
  refine lost <| (T.held_or_drawn h₃ h).resolve_right fun hp => hn ?_
  rw [List.filterMap_append]
  exact List.mem_append_right _ hp

end Tokens
