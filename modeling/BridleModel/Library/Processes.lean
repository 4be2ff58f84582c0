import Mathlib.Logic.Function.Basic
import BridleModel.Library.Execution

-- Any number of processes work on one store. A step of a process is one atomic operation on the store,
-- which also moves the process on; between two such steps anybody else may change the store. The
-- environment changes the store on its own.
structure Processes (σ π ε ι : Type*) where
  init        : σ → Prop
  start       : π
  environment : σ → ε → Option σ
  advance     : σ → π → ι → Option (σ × π)

namespace Processes

variable {σ π ε ι : Type*}

structure Configuration (σ π : Type*) where
  store   : σ
  process : Nat → π

inductive Label (ε ι : Type*)
  | environment (e : ε)
  | process (p : Nat) (i : ι)

def step (P : Processes σ π ε ι) (c : Configuration σ π) : Label ε ι → Option (Configuration σ π)
  | .environment e => (P.environment c.store e).map ({ c with store := · })
  | .process p i   => (P.advance c.store (c.process p) i).map fun ⟨store, local'⟩ =>
      { store, process := Function.update c.process p local' }

def system (P : Processes σ π ε ι) : TransitionSystem (Configuration σ π) (Label ε ι) where
  init c := P.init c.store ∧ ∀ p, c.process p = P.start
  step   := P.step

-- The rely-guarantee rule: `I` holds of the store, `L` relates the store to each process, and `R` is
-- what everybody guarantees about a change of the store and may rely on others for.
structure Invariant (P : Processes σ π ε ι) (I : σ → Prop) (L : σ → π → Prop) (R : σ → σ → Prop) :
    Prop where
  init        : P.init s → I s ∧ L s P.start
  environment : I s → P.environment s e = some s' → R s s'
  advance     : I s → L s p → P.advance s p i = some (s', p') → R s s' ∧ L s' p'
  store       : I s → R s s' → I s'
  stable      : I s → R s s' → L s p → L s' p

namespace Invariant

variable {P : Processes σ π ε ι} {I : σ → Prop} {L : σ → π → Prop} {R : σ → σ → Prop}
  {c c' : Configuration σ π} {l : Label ε ι}

theorem step (h : P.Invariant I L R) (hi : I c.store ∧ ∀ p, L c.store (c.process p))
    (hs : P.step c l = some c') :
    R c.store c'.store ∧ I c'.store ∧ ∀ p, L c'.store (c'.process p) := by
  have ⟨hI, hL⟩ := hi
  cases l
  case environment e =>
    have ⟨s, he, hc⟩ := Option.map_eq_some_iff.mp hs
    subst hc
    have hr := h.environment hI he
    exact ⟨hr, h.store hI hr, fun p => h.stable hI hr (hL p)⟩
  case process p i =>
    have ⟨⟨s, local'⟩, ha, hc⟩ := Option.map_eq_some_iff.mp hs
    subst hc
    have ⟨hr, hl⟩ := h.advance hI (hL p) ha
    refine ⟨hr, h.store hI hr, fun q => ?_⟩
    by_cases hq : q = p
    case pos => subst hq; simpa using hl
    case neg => simpa [hq] using h.stable hI hr (hL q)

theorem reachable (h : P.Invariant I L R) (r : P.system.Reachable c) :
    I c.store ∧ ∀ p, L c.store (c.process p) := by
  refine r.invariant (I := fun c => I c.store ∧ ∀ p, L c.store (c.process p)) ?_ ?_
  · intro c ⟨hi, hp⟩
    exact ⟨(h.init hi).1, fun p => hp p ▸ (h.init hi).2⟩
  · intro _ _ _ _ hi hs
    exact (h.step hi hs).2

-- A step of the system that starts in a reachable configuration keeps the guarantee.
theorem guarantee (h : P.Invariant I L R) (r : P.system.Reachable c)
    (hs : P.system.step c l = some c') : R c.store c'.store :=
  (h.step (h.reachable r) hs).1

end Invariant
end Processes
