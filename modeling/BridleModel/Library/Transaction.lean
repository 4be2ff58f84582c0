import Mathlib.Data.List.Basic

-- A connection to a store whose durable content is `σ`. The statements of an open transaction work on a
-- copy of the content. A commit makes the copy durable, and a rollback or the loss of the connection
-- drops it.
structure Connection (σ : Type*) where
  durable     : σ
  transaction : Option σ

-- `execute` is a statement that fails on some contents. Outside of a transaction it is durable at once.
inductive Statement (σ : Type*)
  | begin
  | execute (f : σ → Option σ)
  | commit

namespace Statement

variable {σ : Type*}

-- `executescript`: the driver commits an open transaction before it runs the script.
def script (fs : List (σ → Option σ)) : List (Statement σ) :=
  .commit :: fs.map .execute

def isCommit : Statement σ → Bool
  | .commit => true
  | _       => false

end Statement

namespace Connection

variable {σ : Type*} {c c' : Connection σ} {s : σ} {stmts stmts' : List (Statement σ)} {k : Nat}
  {fs : List (σ → Option σ)}

def opened (s : σ) : Connection σ where
  durable     := s
  transaction := none

def perform (c : Connection σ) : Statement σ → Option (Connection σ)
  | .begin     =>
    match c.transaction with
    | none   => some { c with transaction := some c.durable }
    | some _ => none
  | .execute f =>
    match c.transaction with
    | none   => (f c.durable).map ({ c with durable := · })
    | some s => (f s).map ({ c with transaction := some · })
  | .commit    => some { durable := c.transaction.getD c.durable, transaction := none }

def rollback (c : Connection σ) : Connection σ :=
  { c with transaction := none }

def run (c : Connection σ) (stmts : List (Statement σ)) : Option (Connection σ) :=
  stmts.foldlM perform c

-- The connection as a failure leaves it: `k` statements complete unless one of them fails before.
def interrupted (c : Connection σ) : List (Statement σ) → Nat → Connection σ
  | [], _                 => c
  | _ :: _, 0             => c
  | stmt :: stmts, k + 1 =>
    match c.perform stmt with
    | none   => c
    | some c => c.interrupted stmts k

@[simp]
theorem rollback_durable : c.rollback.durable = c.durable :=
  rfl

theorem run_cons {stmt : Statement σ} : c.run (stmt :: stmts) = (c.perform stmt).bind (·.run stmts) :=
  rfl

@[simp]
theorem interrupted_zero : c.interrupted stmts 0 = c := by
  cases stmts <;> rfl

theorem interrupted_append (h : c.run stmts = some c') :
    c.interrupted (stmts ++ stmts') k =
      if k ≤ stmts.length then c.interrupted stmts k else c'.interrupted stmts' (k - stmts.length) := by
  induction stmts generalizing c k with
  | nil => cases h; cases k <;> simp [interrupted]
  | cons stmt stmts hi =>
    have ⟨d, hd, h⟩ := Option.bind_eq_some_iff.mp (run_cons ▸ h)
    cases k with
    | zero   => simp
    | succ k => simp [interrupted, hd, hi h]

theorem interrupted_append_of_run_none (h : c.run stmts = none) :
    c.interrupted (stmts ++ stmts') k = c.interrupted stmts k := by
  induction stmts generalizing c k with
  | nil => cases h
  | cons stmt stmts hi =>
    cases k with
    | zero   => simp
    | succ k =>
      simp only [List.cons_append, interrupted]
      cases hd : c.perform stmt with
      | none   => rfl
      | some d => exact hi (by simpa [run_cons, hd] using h)

section Transaction

-- The contents that statements make of a content, unless one of them fails
def contents (fs : List (σ → Option σ)) (s : σ) : Option σ :=
  fs.foldlM (fun s (f : σ → Option σ) => f s) s

theorem contents_append {fs' : List (σ → Option σ)} :
    contents (fs ++ fs') s = (contents fs s).bind (contents fs') := by
  simp [contents, List.foldlM_append]
  rfl

-- Until it is committed a transaction leaves the durable content alone, wherever it is interrupted.
theorem interrupted_durable (hs : ∀ stmt ∈ stmts, ¬stmt.isCommit) (hc : c.transaction = some s) :
    (c.interrupted stmts k).durable = c.durable := by
  induction stmts generalizing c s k with
  | nil => rfl
  | cons stmt stmts hi =>
    have ⟨_, hs'⟩ := List.forall_mem_cons.mp hs
    cases k with
    | zero   => rfl
    | succ k =>
      cases stmt with
      | begin     => simp [interrupted, perform, hc]
      | commit    => simp_all [Statement.isCommit]
      | execute f =>
        simp only [interrupted, perform, hc]
        cases f s with
        | none   => rfl
        | some t => exact hi hs' rfl

theorem run_executes (hc : c.transaction = some s) :
    c.run (fs.map .execute) =
      (contents fs s).map fun t => { c with transaction := some t } := by
  induction fs generalizing c s with
  | nil => cases c; cases hc; rfl
  | cons f fs hi =>
    rw [List.map_cons, run_cons, contents, List.foldlM_cons]
    simp only [perform, hc]
    cases f s with
    | none   => rfl
    | some t => exact @hi { c with transaction := some t } t rfl

-- BEGIN and the statements of a transaction, before anything is committed
def body (fs : List (σ → Option σ)) : List (Statement σ) :=
  .begin :: fs.map .execute

theorem length_body : (body fs).length = fs.length + 1 := by
  simp [body]

theorem run_body : (opened s).run (body fs) =
    (contents fs s).map fun t => { durable := s, transaction := some t } :=
  run_executes rfl

theorem interrupted_body : ((opened s).interrupted (body fs) k).durable = s := by
  cases k with
  | zero   => simp [opened]
  | succ k =>
    refine @interrupted_durable σ { durable := s, transaction := some s } s _ k ?_ rfl
    intro stmt h
    have ⟨_, _, h⟩ := List.mem_map.mp h
    cases h
    simp [Statement.isCommit]

end Transaction
end Connection
