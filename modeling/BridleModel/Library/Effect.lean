import BridleModel.Library.Except

universe u v w

-- Effects on a state that stay when a later one raises
def Effect (σ : Type u) (ε : Type v) :=
  σ → σ × Option ε

namespace Effect

variable {σ : Type u} {ε : Type v} {ι : Type w}

def done : Effect σ ε :=
  fun s => (s, none)

def raise (e : ε) : Effect σ ε :=
  fun s => (s, some e)

def seq (a b : Effect σ ε) : Effect σ ε := fun s =>
  match a s with
  | (s', none)   => b s'
  | (s', some e) => (s', some e)

def raiseFirst : Option ε → Effect σ ε → Effect σ ε
  | some e, _ => raise e
  | none, a   => a

def inTurn (f : ι → Effect σ ε) : List ι → Effect σ ε
  | []      => done
  | i :: is => seq (f i) (inTurn f is)

section Composition

variable {a b : Effect σ ε} {f : ι → Effect σ ε} {is : List ι} {s s' : σ} {e : ε}

theorem seq_returns_iff : seq a b s = (s', none) ↔ ∃ s₁, a s = (s₁, none) ∧ b s₁ = (s', none) := by
  rw [seq]
  cases h : a s with
  | mk s₁ r =>
    cases r with
    | none   => simp
    | some _ => simp

theorem seq_raises_iff :
    seq a b s = (s', some e) ↔ a s = (s', some e) ∨ ∃ s₁, a s = (s₁, none) ∧ b s₁ = (s', some e) := by
  rw [seq]
  cases h : a s with
  | mk s₁ r =>
    cases r with
    | none   => simp
    | some _ => simp

theorem raiseFirst_returns_iff {r : Option ε} : raiseFirst r a s = (s', none) ↔ r = none ∧ a s = (s', none) := by
  cases r with
  | none   => simp [raiseFirst]
  | some _ => simp [raiseFirst, raise]

theorem seq_preserves {P : σ → Prop} (ha : P (a s).fst) (hb : ∀ {s}, P s → P (b s).fst) : P (seq a b s).fst := by
  rw [seq]
  cases h : a s with
  | mk s₁ r =>
    rw [h] at ha
    cases r with
    | none   => exact hb ha
    | some _ => exact ha

theorem raiseFirst_preserves {P : σ → Prop} {r : Option ε} (hs : P s) (ha : P (a s).fst) : P (raiseFirst r a s).fst := by
  cases r with
  | none   => exact ha
  | some _ => exact hs

-- What each effect preserves, all of them in turn preserve, also when one of them raises.
theorem inTurn_preserves {P : σ → Prop} (step : ∀ {i s}, P s → P (f i s).fst) (h : P s) : P (inTurn f is s).fst := by
  induction is generalizing s with
  | nil          => exact h
  | cons i is hi =>
    exact seq_preserves (step h) hi

-- The loop returns only if each of its rounds does.
theorem inTurn_returns {P : σ → Prop} (step : ∀ {i s}, P s → P (f i s).fst) (hs : P s)
    (h : inTurn f is s = (s', none)) {i : ι} (hi : i ∈ is) : ∃ s₁ s₂, P s₁ ∧ f i s₁ = (s₂, none) := by
  induction is generalizing s with
  | nil           => cases hi
  | cons i' is ih =>
    obtain ⟨s₁, h₁, h₂⟩ := seq_returns_iff.mp h
    cases List.mem_cons.mp hi with
    | inl hi => exact ⟨s, s₁, hs, hi ▸ h₁⟩
    | inr hi =>
      have hp : P (f i' s).fst := step hs
      rw [h₁] at hp
      exact ih hp h₂ hi

-- If every round returns, so does the loop.
variable (is) in
theorem inTurn_of_returns {P : σ → Prop} (step : ∀ i {s}, P s → ∃ s', f i s = (s', none) ∧ P s') (hs : P s) :
    ∃ s', inTurn f is s = (s', none) ∧ P s' := by
  induction is generalizing s with
  | nil          => exact ⟨s, rfl, hs⟩
  | cons i is hi =>
    obtain ⟨s₁, h₁, hp⟩ := step i hs
    obtain ⟨s₂, h₂, hp⟩ := hi hp
    exact ⟨s₂, seq_returns_iff.mpr ⟨s₁, h₁, h₂⟩, hp⟩

end Composition

section Operations

variable {ω : Type u} {τ : Type w} (apply : ω → σ → Except ε σ) (fails : ω → τ → σ → σ × ε)

-- The operations one after the other. Each may refuse, and the environment lets the `n`-th one fail with `faults n`.
def run : List ω → (Nat → Option τ) → Effect σ ε
  | [], _            => done
  | op :: ops, faults => fun s =>
    match faults 0 with
    | some t => ((fails op t s).fst, some (fails op t s).snd)
    | none   =>
      match apply op s with
      | .error e => (s, some e)
      | .ok s'   => run ops (fun n => faults (n + 1)) s'

variable {apply fails} {op op' : ω} {ops ops' : List ω} {faults : Nat → Option τ} {s s' : σ}

theorem run_cons :
    run apply fails (op :: ops) faults s =
      match faults 0 with
      | some t => ((fails op t s).fst, some (fails op t s).snd)
      | none   =>
        match apply op s with
        | .error e => (s, some e)
        | .ok s'   => run apply fails ops (fun n => faults (n + 1)) s' :=
  rfl

theorem run_returns (h : run apply fails ops faults s = (s', none)) :
    ops.foldlM (fun s op => apply op s) s = .ok s' := by
  induction ops generalizing faults s with
  | nil            => exact congrArg Except.ok (Prod.mk.inj h).1
  | cons op ops hi =>
    rw [run] at h
    cases hf : faults 0 with
    | some t => simp [hf] at h
    | none   =>
      cases ha : apply op s with
      | error e => simp [hf, ha] at h
      | ok s₁   =>
        simp only [hf, ha] at h
        rw [List.foldlM_cons, ha]
        exact hi h

theorem run_faultless (h : ops.foldlM (fun s op => apply op s) s = .ok s') :
    run apply fails ops (fun _ => none) s = (s', none) := by
  induction ops generalizing s with
  | nil            => rw [Except.ok.inj h]; rfl
  | cons op ops hi =>
    obtain ⟨s₁, h₁, h₂⟩ := Except.bind_eq_ok_iff.mp h
    simp only [run, h₁]
    exact hi h₂

-- The second operation fails.
theorem run_second {t : τ} (h : apply op s = .ok s') :
    run apply fails (op :: op' :: ops) (fun n => if n = 1 then some t else none) s =
      ((fails op' t s').fst, some (fails op' t s').snd) := by
  simp [run, h]

end Operations

end Effect
