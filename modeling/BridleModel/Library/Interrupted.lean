import Mathlib.Data.List.Induction

universe u v w

-- Programs of operations on a store that may stop before any of their operations, at a crash or at an exception. The
-- journal keeps every operation with the store that it has found.
structure Journal (σ : Type u) (ω : Type v) where
  store : σ
  left  : Nat
  log   : List (σ × ω)

def Program (σ : Type u) (ω : Type v) (α : Type w) :=
  Journal σ ω → Journal σ ω × Option α

namespace Program

variable {σ : Type u} {ω : Type v} {α β γ : Type w}

instance : Monad (Program σ ω) where
  pure a   := fun j => (j, some a)
  bind x f := fun j =>
    match x j with
    | (j', some a) => f a j'
    | (j', none)   => (j', none)

-- The exceptions and the crash
def stop : Program σ ω α :=
  fun j => (j, none)

def read : Program σ ω σ :=
  fun j => (j, some j.store)

-- After `left` operations the program crashes.
def perform (apply : ω → σ → σ) (op : ω) : Program σ ω PUnit := fun j =>
  match j.left with
  | 0        => (j, none)
  | left + 1 => ({ store := apply op j.store, left, log := j.log ++ [(j.store, op)] }, some ⟨⟩)

def ofOption : Option α → Program σ ω α
  | none   => stop
  | some a => pure a

def inTurn {ι : Type} (f : ι → Program σ ω PUnit) : List ι → Program σ ω PUnit
  | []      => pure ⟨⟩
  | i :: is => do
    f i
    inTurn f is

section Run

variable {δ : Type u} {j : Journal σ ω} {x : Program σ ω α} {f : α → Program σ ω β} {g : σ → Program σ ω δ} {a : α}

theorem bind_apply : (x >>= f) j = match x j with
    | (j', some a) => f a j'
    | (j', none)   => (j', none) :=
  rfl

theorem read_bind : (read >>= g) j = g j.store j :=
  rfl

theorem ofOption_some_bind : (ofOption (some a) >>= f : Program σ ω β) = f a :=
  rfl

end Run

section Sound

variable (allowed : List (σ × ω) → σ → ω → Prop)

-- Every operation of the log was allowed where it was done, after the operations before it.
inductive Sound : List (σ × ω) → Prop
  | nil : Sound []
  | snoc {log : List (σ × ω)} {s : σ} {op : ω} (sound : Sound log) (here : allowed log s op) : Sound (log ++ [(s, op)])

variable {allowed} {log pre post : List (σ × ω)} {s : σ} {op : ω}

theorem Sound.split (h : Sound allowed log) (hl : log = pre ++ (s, op) :: post) : allowed pre s op := by
  induction h generalizing post with
  | nil                          => simp at hl
  | @snoc log t op' _ here hi    =>
    cases post using List.reverseRecOn with
    | nil                   =>
      obtain ⟨rfl, hs⟩ := List.append_inj' hl rfl
      cases hs
      exact here
    | append_singleton post x =>
      rw [← List.cons_append, ← List.append_assoc] at hl
      exact hi (List.append_inj' hl rfl).left

end Sound

section Ensures

variable {allowed : List (σ × ω) → σ → ω → Prop} {P P' : Journal σ ω → Prop} {apply : ω → σ → σ}
variable {x : Program σ ω α} {f : α → Program σ ω β} {Q Q' : α → Journal σ ω → Prop} {R : β → Journal σ ω → Prop}

-- Started under `P`, the program does what is allowed only, also if it stops; where it returns, `Q` holds.
def Ensures (allowed : List (σ × ω) → σ → ω → Prop) (P : Journal σ ω → Prop) (x : Program σ ω α)
    (Q : α → Journal σ ω → Prop) : Prop :=
  ∀ j, Sound allowed j.log → P j → Sound allowed (x j).fst.log ∧ ∀ a, (x j).snd = some a → Q a (x j).fst

theorem Ensures.pure {a : α} (h : ∀ j, P j → Q a j) : Ensures allowed P (Pure.pure a : Program σ ω α) Q :=
  fun j hs hp => ⟨hs, fun _ he => Option.some.inj he ▸ h j hp⟩

theorem Ensures.stop : Ensures allowed P (stop : Program σ ω α) Q :=
  fun _ hs _ => ⟨hs, fun _ he => nomatch he⟩

theorem Ensures.read {Q : σ → Journal σ ω → Prop} (h : ∀ j, P j → Q j.store j) :
    Ensures allowed P (read : Program σ ω σ) Q :=
  fun j hs hp => ⟨hs, fun _ he => Option.some.inj he ▸ h j hp⟩

theorem Ensures.bind (hx : Ensures allowed P x Q) (hf : ∀ a, Ensures allowed (Q a) (f a) R) :
    Ensures allowed P (x >>= f) R := by
  intro j hs hp
  obtain ⟨hs', hq⟩ := hx j hs hp
  rw [bind_apply]
  cases hr : x j with
  | mk j' r =>
    rw [hr] at hs' hq
    cases r with
    | none   => exact ⟨hs', fun _ he => nomatch he⟩
    | some a => exact hf a j' hs' (hq a rfl)

theorem Ensures.perform {op : ω} {Q : PUnit → Journal σ ω → Prop} (ha : ∀ j, P j → allowed j.log j.store op)
    (h : ∀ j left, P j → Q ⟨⟩ { store := apply op j.store, left, log := j.log ++ [(j.store, op)] }) :
    Ensures allowed P (perform apply op) Q := by
  intro j hs hp
  rw [Program.perform]
  cases j.left with
  | zero      => exact ⟨hs, fun _ he => nomatch he⟩
  | succ left => exact ⟨.snoc hs (ha j hp), fun _ _ => h j left hp⟩

theorem Ensures.weaken (h : Ensures allowed P x Q) (hp : ∀ j, P' j → P j) (hq : ∀ a j, Q a j → Q' a j) :
    Ensures allowed P' x Q' := by
  intro j hs hp'
  obtain ⟨hs', h⟩ := h j hs (hp j hp')
  exact ⟨hs', fun a he => hq a _ (h a he)⟩

theorem Ensures.ofOption {r : Option α} (h : ∀ a, r = some a → ∀ j, P j → Q a j) :
    Ensures allowed P (ofOption r : Program σ ω α) Q := by
  cases r with
  | none   => exact .stop
  | some a => exact .pure (h a rfl)

theorem Ensures.inTurn {ι : Type} {f : ι → Program σ ω PUnit} {is : List ι}
    (h : ∀ i, Ensures allowed P (f i) fun _ => P) : Ensures allowed P (inTurn f is) fun _ => P := by
  induction is with
  | nil          => exact .pure fun _ hp => hp
  | cons i is hi => exact (h i).bind fun _ => hi

end Ensures

end Program
