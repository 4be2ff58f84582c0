import Mathlib.Logic.Function.Basic
import BridleModel.Library.Execution

-- Coroutines of an event loop. Between two awaits a coroutine runs alone. The choice with which an await goes on decides
-- its result or its exception; an await that cannot go on stays.
inductive Coroutine (σ ι ε α : Type) : Type 1
  | done (result : Except ε α)
  | sync {β : Type} (act : σ → σ × β) (next : β → Coroutine σ ι ε α)
  | await {β : Type} (act : ι → σ → Option (σ × Except ε β)) (next : Except ε β → Coroutine σ ι ε α)

namespace Coroutine

section Syntax

variable {σ ι ε α β γ : Type}

protected def bind : Coroutine σ ι ε α → (α → Coroutine σ ι ε β) → Coroutine σ ι ε β
  | .done (.ok a), f    => f a
  | .done (.error e), _ => .done (.error e)
  | .sync act next, f   => .sync act fun b => (next b).bind f
  | .await act next, f  => .await act fun r => (next r).bind f

instance : Monad (Coroutine σ ι ε) where
  pure a := .done (.ok a)
  bind   := Coroutine.bind

def raise (e : ε) : Coroutine σ ι ε α :=
  .done (.error e)

def require (p : Bool) (e : ε) : Coroutine σ ι ε Unit :=
  if p then pure () else raise e

-- `try`: the exception as a value
def attempt : Coroutine σ ι ε α → Coroutine σ ι ε (Except ε α)
  | .done r         => .done (.ok r)
  | .sync act next  => .sync act fun b => (next b).attempt
  | .await act next => .await act fun r => (next r).attempt

def act (f : σ → σ × α) : Coroutine σ ι ε α :=
  .sync f fun a => .done (.ok a)

def read (f : σ → α) : Coroutine σ ι ε α :=
  act fun s => (s, f s)

def modify (f : σ → σ) : Coroutine σ ι ε Unit :=
  act fun s => (f s, ())

def wait (f : ι → σ → Option (σ × Except ε α)) : Coroutine σ ι ε α :=
  .await f .done

def inTurn (f : γ → Coroutine σ ι ε Unit) : List γ → Coroutine σ ι ε Unit
  | []      => pure ()
  | c :: cs => do
    f c
    inTurn f cs

-- Up to the next await
def settle : Coroutine σ ι ε α → σ → σ × Coroutine σ ι ε α
  | .sync act next, s => (next (act s).2).settle (act s).1
  | .done r, s        => (s, .done r)
  | .await act next, s => (s, .await act next)

end Syntax

section Safe

variable {σ ι ε α β γ : Type} (I : σ → Prop) (R : Nat → σ → σ → Prop) (p : Nat)

-- Each operation of process `p` keeps `I`, and what it changes is what every other process may rely on. While `p` awaits,
-- the others do what `p` relies on.
def Safe : Coroutine σ ι ε α → (Except ε α → σ → Prop) → σ → Prop
  | .done r, Q, s         => I s ∧ Q r s
  | .sync act next, Q, s  =>
    (∀ q, q ≠ p → R q s (act s).1) ∧ I (act s).1 ∧ (next (act s).2).Safe Q (act s).1
  | .await act next, Q, s => ∀ s₁, R p s s₁ → I s₁ → ∀ i s₂ r, act i s₁ = some (s₂, r) →
    (∀ q, q ≠ p → R q s₁ s₂) ∧ I s₂ ∧ (next r).Safe Q s₂

variable {I R p} {k : Coroutine σ ι ε α} {f : α → Coroutine σ ι ε β} {Q Q' : Except ε α → σ → Prop} {s s' : σ}

theorem Safe.weaken (h : k.Safe I R p Q s) (hq : ∀ r s, I s → Q r s → Q' r s) : k.Safe I R p Q' s := by
  induction k generalizing s with
  | done r          => exact ⟨h.left, hq r s h.left h.right⟩
  | sync act next hi =>
    have ⟨hr, hI, hn⟩ := h
    exact ⟨hr, hI, hi _ hn⟩
  | await act next hi =>
    intro s₁ hs hI i s₂ r ha
    have ⟨hr, hI', hn⟩ := h s₁ hs hI i s₂ r ha
    exact ⟨hr, hI', hi _ hn⟩

theorem Safe.bind {Q : Except ε β → σ → Prop} (h : k.Safe I R p Q' s)
    (hok : ∀ a s, I s → Q' (.ok a) s → (f a).Safe I R p Q s) (herror : ∀ e s, I s → Q' (.error e) s → Q (.error e) s) :
    (k >>= f).Safe I R p Q s := by
  induction k generalizing s with
  | done r          =>
    cases r with
    | ok a    => exact hok a s h.left h.right
    | error e => exact ⟨h.left, herror e s h.left h.right⟩
  | sync act next hi =>
    have ⟨hr, hI, hn⟩ := h
    exact ⟨hr, hI, hi _ hn⟩
  | await act next hi =>
    intro s₁ hs hI i s₂ r ha
    have ⟨hr, hI', hn⟩ := h s₁ hs hI i s₂ r ha
    exact ⟨hr, hI', hi _ hn⟩

theorem Safe.attempt_bind {f : Except ε α → Coroutine σ ι ε β} {Q : Except ε β → σ → Prop} (h : k.Safe I R p Q' s)
    (hf : ∀ r s, I s → Q' r s → (f r).Safe I R p Q s) : (k.attempt >>= f).Safe I R p Q s := by
  induction k generalizing s with
  | done r          => exact hf r s h.left h.right
  | sync act next hi =>
    have ⟨hr, hI, hn⟩ := h
    exact ⟨hr, hI, hi _ hn⟩
  | await act next hi =>
    intro s₁ hs hI i s₂ r ha
    have ⟨hr, hI', hn⟩ := h s₁ hs hI i s₂ r ha
    exact ⟨hr, hI', hi _ hn⟩

theorem Safe.pure {a : α} (hI : I s) (h : Q (.ok a) s) : (Pure.pure a : Coroutine σ ι ε α).Safe I R p Q s :=
  ⟨hI, h⟩

theorem Safe.raise {e : ε} (hI : I s) (h : Q (.error e) s) : (raise e : Coroutine σ ι ε α).Safe I R p Q s :=
  ⟨hI, h⟩

theorem Safe.act {f : σ → σ × α} (hR : ∀ q, q ≠ p → R q s (f s).1) (hI : I (f s).1) (h : Q (.ok (f s).2) (f s).1) :
    (act f : Coroutine σ ι ε α).Safe I R p Q s :=
  ⟨hR, hI, hI, h⟩

theorem Safe.act_bind {g : σ → σ × β} {f : β → Coroutine σ ι ε α} {b : β} (hg : g s = (s', b))
    (hR : ∀ q, q ≠ p → R q s s') (hI : I s') (h : (f b).Safe I R p Q s') : (Coroutine.act g >>= f).Safe I R p Q s := by
  change (∀ q, q ≠ p → R q s (g s).1) ∧ I (g s).1 ∧ (f (g s).2).Safe I R p Q (g s).1
  rw [hg]
  exact ⟨hR, hI, h⟩

theorem Safe.modify_bind {g : σ → σ} {f : Unit → Coroutine σ ι ε α} (hR : ∀ q, q ≠ p → R q s (g s)) (hI : I (g s))
    (h : (f ()).Safe I R p Q (g s)) : (modify g >>= f).Safe I R p Q s :=
  .act_bind rfl hR hI h

theorem Safe.read_bind {g : σ → β} {f : β → Coroutine σ ι ε α} (refl : ∀ q s, R q s s) (hI : I s)
    (h : (f (g s)).Safe I R p Q s) : (read g >>= f).Safe I R p Q s :=
  .act_bind rfl (fun q _ => refl q s) hI h

theorem Safe.require_bind {b : Bool} {e : ε} {f : Unit → Coroutine σ ι ε α} (hI : I s)
    (hok : b → (f ()).Safe I R p Q s) (herror : Q (.error e) s) : (require b e >>= f).Safe I R p Q s := by
  cases b with
  | true  => exact hok rfl
  | false => exact ⟨hI, herror⟩

theorem Safe.except_bind {x : Except ε β} {f : β → Coroutine σ ι ε α} (hI : I s)
    (hok : ∀ b, x = .ok b → (f b).Safe I R p Q s) (herror : ∀ e, Q (.error e) s) : (.done x >>= f).Safe I R p Q s := by
  cases x with
  | ok b    => exact hok b rfl
  | error e => exact ⟨hI, herror e⟩

theorem Safe.wait {f : ι → σ → Option (σ × Except ε α)}
    (h : ∀ s₁, R p s s₁ → I s₁ → ∀ i s₂ r, f i s₁ = some (s₂, r) → (∀ q, q ≠ p → R q s₁ s₂) ∧ I s₂ ∧ Q r s₂) :
    (wait f).Safe I R p Q s := by
  intro s₁ hs hI i s₂ r ha
  have ⟨hr, hI', hq⟩ := h s₁ hs hI i s₂ r ha
  exact ⟨hr, hI', hI', hq⟩

theorem Safe.inTurn {f : γ → Coroutine σ ι ε Unit} {J : List γ → σ → Prop} {Q : Except ε Unit → σ → Prop} {cs : List γ}
    (hI : I s) (h : J cs s) (hnil : ∀ s, I s → J [] s → Q (.ok ()) s)
    (hcons : ∀ c cs s, I s → J (c :: cs) s → (f c).Safe I R p (fun r s =>
      match r with
      | .ok _    => J cs s
      | .error e => Q (.error e) s) s) :
    (inTurn f cs).Safe I R p Q s := by
  induction cs generalizing s with
  | nil          => exact .pure hI (hnil s hI h)
  | cons c cs hi => exact (hcons c cs s hI h).bind (fun _ s hI hj => hi hI hj) fun _ _ _ hq => hq

-- A coroutine that runs to its end, while the others do what it relies on before each of its awaits
inductive Runs (R : σ → σ → Prop) : Coroutine σ ι ε α → σ → Except ε α → σ → Prop
  | done {r s} : Runs R (.done r) s r s
  | sync {β act s r s'} {next : β → Coroutine σ ι ε α} (h : Runs R (next (act s).2) (act s).1 r s') :
    Runs R (.sync act next) s r s'
  | await {β act s s₁ i s₂ a r s'} {next : Except ε β → Coroutine σ ι ε α} (hs : R s s₁) (ha : act i s₁ = some (s₂, a))
    (h : Runs R (next a) s₂ r s') : Runs R (.await act next) s r s'

theorem Safe.runs {r : Except ε α} (h : k.Safe I R p Q s) (hI : ∀ {s s'}, I s → R p s s' → I s') (hi : I s)
    (hr : k.Runs (R p) s r s') : I s' ∧ Q r s' := by
  induction hr with
  | done             => exact h
  | sync _ ih        => exact ih h.right.right h.right.left
  | await hs ha _ ih =>
    have ⟨_, hi', hn⟩ := h _ hs (hI hi hs) _ _ _ ha
    exact ih hn hi'

-- A whole run is for another process like one of its steps.
theorem Safe.runs_guarantee {r : Except ε α} {q : Nat} (h : k.Safe I R p Q s)
    (hI : ∀ {s s'}, I s → R p s s' → I s') (hi : I s) (hq : q ≠ p) (refl : ∀ s, R q s s)
    (trans : ∀ {s s' s''}, R q s s' → R q s' s'' → R q s s'') (sub : ∀ {s s'}, R p s s' → R q s s')
    (hr : k.Runs (R p) s r s') : R q s s' := by
  induction hr with
  | done             => exact refl _
  | sync _ ih        => exact trans (h.left q hq) (ih h.right.right h.right.left)
  | await hs ha _ ih =>
    have ⟨hr, hi', hn⟩ := h _ hs (hI hi hs) _ _ _ ha
    exact trans (sub hs) (trans (hr q hq) (ih hn hi'))

end Safe
end Coroutine

-- The coroutines that are due are told by the state; a process that has started is not started again.
structure EventLoop (σ ι ε κ : Type) : Type 1 where
  init    : σ → Prop
  outside : κ → σ → Option σ
  program : σ → Nat → Option (Coroutine σ ι ε Unit)

namespace EventLoop

variable {σ ι ε κ : Type}

structure Configuration (σ ι ε : Type) : Type 1 where
  store   : σ
  running : Nat → Option (Coroutine σ ι ε Unit)

inductive Label (ι κ : Type)
  | outside (o : κ)
  | start (p : Nat)
  | resume (p : Nat) (i : ι)

-- One segment of a coroutine, from where it stands to its next await
def Configuration.advance (c : Configuration σ ι ε) (p : Nat) (k : Coroutine σ ι ε Unit) (s : σ) : Configuration σ ι ε where
  store   := (k.settle s).1
  running := Function.update c.running p (some (k.settle s).2)

def step (E : EventLoop σ ι ε κ) (c : Configuration σ ι ε) : Label ι κ → Option (Configuration σ ι ε)
  | .outside o  => (E.outside o c.store).map ({ c with store := · })
  | .start p    => if (c.running p).isSome then none else (E.program c.store p).map (c.advance p · c.store)
  | .resume p i =>
    match c.running p with
    | some (.await act next) => (act i c.store).map fun ⟨s, r⟩ => c.advance p (next r) s
    | _                      => none

def system (E : EventLoop σ ι ε κ) : TransitionSystem (Configuration σ ι ε) (Label ι κ) where
  init c := E.init c.store ∧ ∀ p, c.running p = none
  step   := E.step

-- What a process that waits or has ended may count on
def Parked (I : σ → Prop) (R : Nat → σ → σ → Prop) (p : Nat) (s : σ) : Coroutine σ ι ε Unit → Prop
  | .done _         => True
  | .sync _ _       => False
  | .await act next => (Coroutine.await act next).Safe I R p (fun _ _ => True) s

structure Sound (E : EventLoop σ ι ε κ) (I : σ → Prop) (R : Nat → σ → σ → Prop) : Prop where
  refl    : ∀ p s, R p s s
  trans   : ∀ {p s₁ s₂ s₃}, R p s₁ s₂ → R p s₂ s₃ → R p s₁ s₃
  init    : ∀ {s}, E.init s → I s
  outside : ∀ {o s s'}, I s → E.outside o s = some s' → I s' ∧ ∀ p, R p s s'
  program : ∀ {s p k}, I s → E.program s p = some k → k.Safe I R p (fun _ _ => True) s

namespace Sound

variable {E : EventLoop σ ι ε κ} {I : σ → Prop} {R : Nat → σ → σ → Prop} {c c' : Configuration σ ι ε} {l : Label ι κ}
variable {p : Nat} {s s' : σ} {k : Coroutine σ ι ε Unit}

theorem parked (h : E.Sound I R) (hr : R p s s') (hp : Parked I R p s k) : Parked I R p s' k := by
  cases k with
  | done r         => trivial
  | sync act next  => exact hp
  | await act next => exact fun s₁ hs => hp s₁ (h.trans hr hs)

theorem settle (h : E.Sound I R) (hI : I s) (hk : k.Safe I R p (fun _ _ => True) s) :
    I (k.settle s).1 ∧ (∀ q, q ≠ p → R q s (k.settle s).1) ∧ Parked I R p (k.settle s).1 (k.settle s).2 := by
  induction k generalizing s with
  | done r           => exact ⟨hI, fun q _ => h.refl q s, trivial⟩
  | await act next _ => exact ⟨hI, fun q _ => h.refl q s, hk⟩
  | sync act next hi =>
    have ⟨hr, hI', hn⟩ := hk
    have ⟨hI'', hr', hp⟩ := hi _ hI' hn
    exact ⟨hI'', fun q hq => h.trans (hr q hq) (hr' q hq), hp⟩

def Kept (I : σ → Prop) (R : Nat → σ → σ → Prop) (c : Configuration σ ι ε) : Prop :=
  I c.store ∧ ∀ p k, c.running p = some k → Parked I R p c.store k

theorem advance (h : E.Sound I R) (hc : Kept I R c) (hI : I s) (hr : ∀ q, q ≠ p → R q c.store s)
    (hk : k.Safe I R p (fun _ _ => True) s) :
    Kept I R (c.advance p k s) ∧ ∀ q, q ≠ p → R q c.store (c.advance p k s).store := by
  have ⟨hI', hr', hp⟩ := h.settle hI hk
  have hall : ∀ q, q ≠ p → R q c.store (k.settle s).1 := fun q hq => h.trans (hr q hq) (hr' q hq)
  refine ⟨⟨hI', ?_⟩, hall⟩
  intro q k' hk'
  simp only [Configuration.advance] at hk' ⊢
  by_cases hq : q = p
  case pos =>
    rw [hq, Function.update_self] at hk'
    exact hq ▸ Option.some.inj hk' ▸ hp
  case neg =>
    rw [Function.update_of_ne hq] at hk'
    exact h.parked (hall q hq) (hc.right q k' hk')

-- A step keeps everything, and all processes but one may rely on what it changes.
theorem step (h : E.Sound I R) (hc : Kept I R c) (hs : E.step c l = some c') :
    Kept I R c' ∧ ∃ p, ∀ q, q ≠ p → R q c.store c'.store := by
  cases l with
  | outside o =>
    have ⟨s, ho, he⟩ := Option.map_eq_some_iff.mp hs
    subst he
    have ⟨hI, hr⟩ := h.outside hc.left ho
    exact ⟨⟨hI, fun p k hk => h.parked (hr p) (hc.right p k hk)⟩, 0, fun q _ => hr q⟩
  | start p =>
    simp only [EventLoop.step] at hs
    split at hs
    case isTrue  => cases hs
    case isFalse =>
      have ⟨k, hk, he⟩ := Option.map_eq_some_iff.mp hs
      subst he
      have ⟨hkept, hr⟩ := h.advance hc hc.left (fun q _ => h.refl q _) (h.program hc.left hk)
      exact ⟨hkept, p, hr⟩
  | resume p i =>
    simp only [EventLoop.step] at hs
    split at hs
    case h_2               => cases hs
    case h_1 act next hrun =>
      have ⟨⟨s, r⟩, ha, he⟩ := Option.map_eq_some_iff.mp hs
      subst he
      have ⟨hr, hI, hn⟩ := hc.right p _ hrun c.store (h.refl p _) hc.left i s r ha
      have ⟨hkept, hr'⟩ := h.advance hc hI hr hn
      exact ⟨hkept, p, hr'⟩

theorem init_kept (h : E.Sound I R) (hi : E.system.init c) : Kept I R c :=
  ⟨h.init hi.left, fun p _ hk => nomatch (hi.right p).symm.trans hk⟩

theorem reachable (h : E.Sound I R) (r : E.system.Reachable c) : Kept I R c :=
  r.invariant h.init_kept fun _ hc hs => (h.step hc hs).left

-- What does not depend on the process holds along whole runs.
theorem run {P : σ → σ → Prop} {ls : List (Label ι κ)} (h : E.Sound I R) (hrefl : ∀ s, P s s)
    (htrans : ∀ {s₁ s₂ s₃}, P s₁ s₂ → P s₂ s₃ → P s₁ s₃) (hP : ∀ {p s s'}, R p s s' → P s s') (r : E.system.Reachable c)
    (hrun : E.system.run c ls = some c') : P c.store c'.store := by
  induction ls generalizing c with
  | nil          => exact Option.some.inj hrun ▸ hrefl _
  | cons l ls hi =>
    have ⟨c₁, hs, hr⟩ := Option.bind_eq_some_iff.mp (TransitionSystem.run_cons ▸ hrun)
    have ⟨_, p, hp⟩ := h.step (h.reachable r) hs
    exact htrans (hP (hp (p + 1) (Nat.succ_ne_self p))) (hi (r.step hs) hr)

end Sound
end EventLoop
