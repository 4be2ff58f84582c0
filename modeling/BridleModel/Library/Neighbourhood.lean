import Mathlib.Data.List.Nodup
import Mathlib.Data.Set.Basic

-- Searches for what lies within a number of steps of a start, which give up when they have found enough. `next` lists
-- the neighbours of a node.
namespace Neighbourhood

variable {α : Type} {next : α → List α}

section Balls

inductive Walk (r : α → α → Prop) : Nat → α → α → Prop
  | nil  : Walk r 0 a a
  | snoc : Walk r n a b → r b c → Walk r (n + 1) a c

-- What a walk of at most `n` steps reaches from the start
def Ball (r : α → α → Prop) (start : List α) (n : Nat) : Set α :=
  { b | ∃ a ∈ start, ∃ k ≤ n, Walk r k a b }

-- A step from a node to one of its neighbours
abbrev Step (next : α → List α) (a b : α) : Prop :=
  b ∈ next a

variable {r : α → α → Prop} {start : List α} {n m : Nat} {a b : α}

theorem mem_ball_zero : b ∈ Ball r start 0 ↔ b ∈ start := by
  constructor
  · rintro ⟨a, ha, k, hk, hw⟩
    cases Nat.le_zero.mp hk
    cases hw
    exact ha
  · exact fun h => ⟨b, h, 0, Nat.le_refl 0, .nil⟩

theorem ball_mono (h : n ≤ m) (hb : b ∈ Ball r start n) : b ∈ Ball r start m := by
  obtain ⟨a, ha, k, hk, hw⟩ := hb
  exact ⟨a, ha, k, hk.trans h, hw⟩

theorem mem_ball_succ : b ∈ Ball r start (n + 1) ↔
    b ∈ Ball r start n ∨ ∃ a ∈ Ball r start n, r a b := by
  constructor
  · rintro ⟨a, ha, k, hk, hw⟩
    cases hw with
    | nil        => exact .inl ⟨b, ha, 0, Nat.zero_le n, .nil⟩
    | snoc hw hb => exact .inr ⟨_, ⟨a, ha, _, Nat.le_of_succ_le_succ hk, hw⟩, hb⟩
  · rintro (hb | ⟨c, ⟨a, ha, k, hk, hw⟩, hb⟩)
    · exact ball_mono (Nat.le_succ n) hb
    · exact ⟨a, ha, k + 1, Nat.succ_le_succ hk, .snoc hw hb⟩

theorem ball_congr {start' : List α} (h : ∀ a, a ∈ start ↔ a ∈ start') : Ball r start n = Ball r start' n := by
  ext b
  exact exists_congr fun a => and_congr_left' (h a)

-- A set that the neighbours do not leave holds every ball around a part of it.
theorem ball_subset {s : Set α} (hs : ∀ a ∈ start, a ∈ s) (hc : ∀ a ∈ s, ∀ b, r a b → b ∈ s) :
    ∀ b ∈ Ball r start n, b ∈ s := by
  induction n with
  | zero      => exact fun b hb => hs b (mem_ball_zero.mp hb)
  | succ n hi =>
    intro b hb
    cases mem_ball_succ.mp hb with
    | inl hb => exact hi b hb
    | inr hb =>
      obtain ⟨a, ha, hb⟩ := hb
      exact hc a (hi a ha) b hb

end Balls

section Phases

variable {depth k : Nat} {start seen current later new : List α} {a b : α}

-- The nodes of the current level that are still queued come before the nodes that were found for the next one.
structure Phase (next : α → List α) (start : List α) (depth k : Nat) (seen current later : List α) : Prop where
  deep  : k ≤ depth
  last  : k = depth → later = []
  here  : ∀ b ∈ current, b ∈ Ball (Step next) start k
  found : ∀ b ∈ later, b ∈ Ball (Step next) start (k + 1)
  known : ∀ b, b ∈ seen ↔ b ∈ Ball (Step next) start k ∨ b ∈ later
  done  : k < depth → ∀ a ∈ Ball (Step next) start k, a ∉ current → ∀ b ∈ next a, b ∈ seen

namespace Phase

theorem near (h : Phase next start depth k seen current later) : ∀ b ∈ seen, b ∈ Ball (Step next) start depth := by
  intro b hb
  cases (h.known b).mp hb with
  | inl hb => exact ball_mono h.deep hb
  | inr hb =>
    cases Nat.lt_or_eq_of_le h.deep with
    | inl hk => exact ball_mono hk (h.found b hb)
    | inr hk => exact absurd (h.last hk ▸ hb) List.not_mem_nil

-- With an empty queue everything within the depth has been seen.
theorem whole (h : Phase next start depth k seen [] []) : ∀ b ∈ Ball (Step next) start depth, b ∈ seen := by
  have hs : ∀ b, b ∈ seen ↔ b ∈ Ball (Step next) start k := by simpa using h.known
  cases Nat.lt_or_eq_of_le h.deep with
  | inr hk => exact fun b hb => (hs b).mpr (hk ▸ hb)
  | inl hk =>
    refine @ball_subset α (Step next) start depth { b | b ∈ seen } (fun a ha => ?_) fun a ha b hb => ?_
    · exact (hs a).mpr (ball_mono (Nat.zero_le k) (mem_ball_zero.mpr ha))
    · exact h.done hk a ((hs a).mp ha) List.not_mem_nil b hb

-- The level is done.
theorem turn (h : Phase next start depth k seen [] later) (hl : later ≠ []) :
    Phase next start depth (k + 1) seen later [] := by
  have hk : k < depth := lt_of_le_of_ne h.deep fun he => hl (h.last he)
  have hs : ∀ b, b ∈ seen ↔ b ∈ Ball (Step next) start (k + 1) := by
    intro b
    rw [h.known, mem_ball_succ]
    constructor
    · rintro (hb | hb)
      · exact .inl hb
      · exact mem_ball_succ.mp (h.found b hb)
    · rintro (hb | ⟨a, ha, hb⟩)
      · exact .inl hb
      · exact (h.known b).mp (h.done hk a ha List.not_mem_nil b hb)
  refine ⟨hk, fun _ => rfl, h.found, by simp, by simpa using hs, fun _ a ha hn => ?_⟩
  exact h.done hk a (((h.known a).mp ((hs a).mpr ha)).resolve_right hn) List.not_mem_nil

-- A node at the depth is not expanded.
theorem pop (h : Phase next start depth k seen (a :: current) later) (hk : depth ≤ k) :
    Phase next start depth k seen current later :=
  ⟨h.deep, h.last, fun b hb => h.here b (List.mem_cons_of_mem _ hb), h.found, h.known,
    fun hlt => absurd hlt (Nat.not_lt_of_le hk)⟩

theorem expand (h : Phase next start depth k seen (a :: current) later) (hk : k < depth)
    (hnew : ∀ b ∈ new, b ∈ next a) (hall : ∀ b ∈ next a, b ∈ seen ++ new) :
    Phase next start depth k (seen ++ new) current (later ++ new) where
  deep         := h.deep
  last he      := absurd hk (Nat.not_lt_of_le (Nat.le_of_eq he.symm))
  here b hb    := h.here b (List.mem_cons_of_mem _ hb)
  found b hb   := by
    cases List.mem_append.mp hb with
    | inl hb => exact h.found b hb
    | inr hb => exact mem_ball_succ.mpr (.inr ⟨a, h.here a List.mem_cons_self, hnew b hb⟩)
  known b      := by rw [List.mem_append, List.mem_append, h.known, or_assoc]
  done _ c hc hn b hb := by
    by_cases he : c = a
    case pos => exact hall b (he ▸ hb)
    case neg => exact List.mem_append_left _ (h.done hk c hc (by simp [he, hn]) b hb)

-- The first node of the queue belongs to the current level, once the level has turned.
theorem head {rest : List (α × Nat)} {level : Nat} (h : Phase next start depth k seen current later)
    (hq : (a, level) :: rest = current.map (·, k) ++ later.map (·, k + 1)) :
    ∃ current later, Phase next start depth level seen (a :: current) later ∧
      rest = current.map (·, level) ++ later.map (·, level + 1) := by
  cases current with
  | cons c current =>
    obtain ⟨hc, rfl⟩ := List.cons.inj hq
    cases hc
    exact ⟨current, later, h, rfl⟩
  | nil            =>
    cases later with
    | nil          => cases hq
    | cons c later =>
      obtain ⟨hc, rfl⟩ := List.cons.inj hq
      cases hc
      exact ⟨later, [], h.turn (by simp), by simp⟩

end Phase

end Phases

section Collect

variable [DecidableEq α] {limit : Nat} {seen bs : List α} {b : α}

-- The nodes of a list that are not seen yet, up to the one with which the limit is met
def collect (limit : Nat) : List α → List α → List α
  | _, []         => []
  | seen, b :: bs =>
    if b ∈ seen then collect limit seen bs
    else if limit ≤ (seen ++ [b]).length then [b]
    else b :: collect limit (seen ++ [b]) bs

theorem mem_of_mem_collect (h : b ∈ collect limit seen bs) : b ∈ bs ∧ b ∉ seen := by
  induction bs generalizing seen with
  | nil          => cases h
  | cons c cs hi =>
    rw [collect] at h
    split at h
    case isTrue =>
      obtain ⟨hb, hn⟩ := hi h
      exact ⟨List.mem_cons_of_mem _ hb, hn⟩
    case isFalse hc =>
      split at h
      case isTrue =>
        cases List.mem_singleton.mp h
        exact ⟨List.mem_cons_self, hc⟩
      case isFalse =>
        cases List.mem_cons.mp h with
        | inl h =>
          subst h
          exact ⟨List.mem_cons_self, hc⟩
        | inr h =>
          obtain ⟨hb, hn⟩ := hi h
          exact ⟨List.mem_cons_of_mem _ hb, fun hs => hn (List.mem_append_left _ hs)⟩

theorem nodup_collect (h : seen.Nodup) : (seen ++ collect limit seen bs).Nodup := by
  induction bs generalizing seen with
  | nil          => simpa [collect] using h
  | cons c cs hi =>
    rw [collect]
    split
    case isTrue => exact hi h
    case isFalse hc =>
      have hs : (seen ++ [c]).Nodup := by
        rw [← List.concat_eq_append]
        exact h.concat hc
      split
      case isTrue  => exact hs
      case isFalse => simpa using hi hs

theorem length_collect (h : seen.length < limit) : (seen ++ collect limit seen bs).length ≤ limit := by
  induction bs generalizing seen with
  | nil          => simpa [collect] using Nat.le_of_lt h
  | cons c cs hi =>
    rw [collect]
    split
    case isTrue => exact hi h
    case isFalse =>
      split
      case isTrue     => simpa using Nat.succ_le_of_lt h
      case isFalse hl => simpa using hi (Nat.lt_of_not_le hl)

-- Short of the limit nothing is left out.
theorem subset_collect (h : (seen ++ collect limit seen bs).length < limit) : b ∈ bs → b ∈ seen ++ collect limit seen bs := by
  induction bs generalizing seen with
  | nil          => exact fun hb => absurd hb List.not_mem_nil
  | cons c cs hi =>
    rw [collect] at h ⊢
    split at h
    case isTrue hc =>
      rw [if_pos hc]
      intro hb
      cases List.mem_cons.mp hb with
      | inl hb => exact List.mem_append_left _ (hb ▸ hc)
      | inr hb => exact hi h hb
    case isFalse hc =>
      split at h
      case isTrue hl  => exact absurd h (Nat.not_lt_of_le hl)
      case isFalse hl =>
        rw [if_neg hc, if_neg hl]
        have hi := @hi (seen ++ [c]) (by simpa using h)
        intro hb
        cases List.mem_cons.mp hb with
        | inl hb => simp [hb]
        | inr hb => simpa using hi hb

end Collect
-- Level by level: the nodes that are new in a level are the frontier of the next one, in any order.
section Levels

variable [DecidableEq α] {limit n : Nat} {order : List α → List α} {start seen found frontier : List α} {a b : α}

-- The nodes that a level has seen and those that it has found, until the limit is met
def sweep (next : α → List α) (limit : Nat) : List α → List α → List α → List α × List α
  | [], seen, found            => (seen, found)
  | a :: frontier, seen, found =>
    let new := collect limit seen (next a)
    if limit ≤ (seen ++ new).length then (seen ++ new, found ++ new)
    else sweep next limit frontier (seen ++ new) (found ++ new)

-- `stops` tells whether the search ends with an empty frontier.
def levels (next : α → List α) (order : List α → List α) (stops : Bool) (limit : Nat) : Nat → List α → List α → List α
  | 0, seen, _            => seen
  | n + 1, seen, frontier =>
    if limit ≤ seen.length then seen
    else
      let (seen, found) := sweep next limit (order frontier) seen []
      if stops ∧ found = [] then seen else levels next order stops limit n seen found

-- What the search has seen: no further than `n` steps from the start, and the neighbours of all that is not in the
-- frontier.
structure Swept (next : α → List α) (start : List α) (n : Nat) (seen frontier : List α) : Prop where
  near  : ∀ b ∈ seen, b ∈ Ball (Step next) start n
  ball  : ∀ b ∈ Ball (Step next) start n, b ∈ seen
  known : ∀ b ∈ frontier, b ∈ seen
  done  : ∀ a ∈ seen, a ∉ frontier → ∀ b ∈ next a, b ∈ seen

structure Sweeps (next : α → List α) (limit : Nat) (frontier seen new : List α) : Prop where
  found : ∀ b ∈ new, ∃ a ∈ frontier, b ∈ next a
  fresh : seen.Nodup → (seen ++ new).Nodup
  size  : seen.length < limit → (seen ++ new).length ≤ limit
  whole : (seen ++ new).length < limit → ∀ a ∈ frontier, ∀ b ∈ next a, b ∈ seen ++ new

theorem sweep_spec : ∃ new, sweep next limit frontier seen found = (seen ++ new, found ++ new) ∧
    Sweeps next limit frontier seen new := by
  induction frontier generalizing seen found with
  | nil               => exact ⟨[], by simp [sweep], by simp, by simp, fun h => by simpa using Nat.le_of_lt h, by simp⟩
  | cons a frontier hi =>
    rw [sweep]
    have mem : ∀ b ∈ collect limit seen (next a), b ∈ next a := fun b hb => (mem_of_mem_collect hb).1
    split
    case isTrue hl =>
      refine ⟨_, rfl, fun b hb => ⟨a, List.mem_cons_self, mem b hb⟩, nodup_collect, length_collect, fun h => ?_⟩
      exact absurd h (Nat.not_lt_of_le hl)
    case isFalse hl =>
      obtain ⟨new, hs, hn⟩ := @hi (seen ++ collect limit seen (next a)) (found ++ collect limit seen (next a))
      have hlt := Nat.lt_of_not_le hl
      refine ⟨collect limit seen (next a) ++ new, by rw [hs, List.append_assoc, List.append_assoc], ?_, ?_, ?_, ?_⟩
      · intro b hb
        cases List.mem_append.mp hb with
        | inl hb => exact ⟨a, List.mem_cons_self, mem b hb⟩
        | inr hb =>
          obtain ⟨c, hc, hb⟩ := hn.found b hb
          exact ⟨c, List.mem_cons_of_mem _ hc, hb⟩
      · exact fun h => List.append_assoc .. ▸ hn.fresh (nodup_collect h)
      · exact fun _ => List.append_assoc .. ▸ hn.size hlt
      · rw [← List.append_assoc]
        intro h c hc b hb
        cases List.mem_cons.mp hc with
        | inr hc => exact hn.whole h c hc b hb
        | inl hc => exact List.mem_append_left _ (subset_collect hlt (hc ▸ hb))

theorem levels_of_limit {stops : Bool} (h : limit ≤ seen.length) : levels next order stops limit n seen frontier = seen := by
  cases n with
  | zero   => rfl
  | succ n => rw [levels, if_pos h]

theorem levels_nil {stops : Bool} (ho : order [] = []) : levels next order stops limit n seen [] = seen := by
  induction n with
  | zero      => rfl
  | succ n hi =>
    rw [levels, ho, sweep]
    dsimp only
    rw [hi, ite_self, ite_self]

-- What a search for the nodes within `n` steps ends with
structure Bounded (r : α → α → Prop) (start : List α) (n limit : Nat) (seen : List α) : Prop where
  near  : ∀ b ∈ seen, b ∈ Ball r start n
  fresh : seen.Nodup
  size  : start.length ≤ limit → seen.length ≤ limit
  whole : seen.length < limit → ∀ b ∈ Ball r start n, b ∈ seen

theorem Swept.levels {stops : Bool} {m : Nat} (ho : ∀ l, (order l).Perm l) (h : Swept next start m seen frontier)
    (hf : seen.Nodup) (hl : start.length ≤ limit → seen.length ≤ limit) :
    Bounded (Step next) start (m + n) limit (levels next order stops limit n seen frontier) := by
  induction n generalizing m seen frontier with
  | zero      => exact ⟨h.near, hf, hl, fun _ => h.ball⟩
  | succ n hi =>
    rw [Neighbourhood.levels]
    split
    case isTrue hlim =>
      exact ⟨fun b hb => ball_mono (Nat.le_add_right ..) (h.near b hb), hf, hl, fun hn => absurd hn (Nat.not_lt_of_le hlim)⟩
    case isFalse hlim =>
      obtain ⟨new, hs, hn⟩ := @sweep_spec α next _ limit seen [] (order frontier)
      have hnil : order [] = [] := (ho []).eq_nil
      have hstop : (if stops ∧ new = [] then seen ++ new else
          Neighbourhood.levels next order stops limit n (seen ++ new) new) =
            Neighbourhood.levels next order stops limit n (seen ++ new) new := by
        split
        case isTrue he  => rw [he.2, levels_nil hnil]
        case isFalse => rfl
      rw [hs, List.nil_append]
      dsimp only
      rw [hstop, ← Nat.add_assoc, Nat.add_right_comm]
      have near : ∀ b ∈ seen ++ new, b ∈ Ball (Step next) start (m + 1) := by
        intro b hb
        cases List.mem_append.mp hb with
        | inl hb => exact mem_ball_succ.mpr (.inl (h.near b hb))
        | inr hb =>
          obtain ⟨a, ha, hb⟩ := hn.found b hb
          exact mem_ball_succ.mpr (.inr ⟨a, h.near a (h.known a ((ho frontier).mem_iff.mp ha)), hb⟩)
      have hsize : start.length ≤ limit → (seen ++ new).length ≤ limit := fun _ => hn.size (Nat.lt_of_not_le hlim)
      by_cases hlt : (seen ++ new).length < limit
      case neg =>
        rw [levels_of_limit (Nat.le_of_not_lt hlt)]
        exact ⟨fun b hb => ball_mono (Nat.le_add_right ..) (near b hb), hn.fresh hf, hsize, fun h => absurd h hlt⟩
      case pos =>
        -- the neighbours of everything that was seen before the level
        have step : ∀ a ∈ seen, ∀ b ∈ next a, b ∈ seen ++ new := by
          intro a ha b hb
          by_cases hm : a ∈ frontier
          case pos => exact hn.whole hlt a ((ho frontier).mem_iff.mpr hm) b hb
          case neg => exact List.mem_append_left _ (h.done a ha hm b hb)
        refine hi ⟨near, fun b hb => ?_, fun b hb => List.mem_append_right _ hb, fun a ha hm => ?_⟩ (hn.fresh hf) hsize
        · cases mem_ball_succ.mp hb with
          | inl hb => exact List.mem_append_left _ (h.ball b hb)
          | inr hb =>
            obtain ⟨a, ha, hb⟩ := hb
            exact step a (h.ball a ha) b hb
        · exact step a ((List.mem_append.mp ha).resolve_right hm)

-- A search level by level from the start
theorem levels_bounded {stops : Bool} (ho : ∀ l, (order l).Perm l) (hs : start.Nodup) :
    Bounded (Step next) start n limit (levels next order stops limit n start start) := by
  have h : Swept next start 0 start start :=
    ⟨fun b hb => mem_ball_zero.mpr hb, fun b hb => mem_ball_zero.mp hb, fun _ hb => hb, fun a ha hn => absurd ha hn⟩
  simpa using h.levels ho hs id

end Levels
-- Node by node from a queue: each node comes with the level at which it was found.
section Queue

variable [DecidableEq α] {limit depth k : Nat} {start seen : List α} {queue : List (α × Nat)} {a b : α}

-- What the search has seen, and what is left of its queue
def search (next : α → List α) (limit depth : Nat) (seen : List α) (queue : List (α × Nat)) :
    List α × List (α × Nat) :=
  match queue with
  | []                 => (seen, [])
  | (a, level) :: rest =>
    if limit ≤ seen.length then (seen, (a, level) :: rest)
    else if depth ≤ level then search next limit depth seen rest
    else
      let new := collect limit seen (next a)
      search next limit depth (seen ++ new) (rest ++ new.map (·, level + 1))
termination_by (limit - seen.length, queue.length)
decreasing_by
  · exact Prod.Lex.right _ (Nat.lt_succ_self _)
  · rename_i hl _
    cases hn : collect limit seen (next a) with
    | nil       =>
      simp only [List.append_nil, List.map_nil]
      exact Prod.Lex.right _ (Nat.lt_succ_self _)
    | cons _ _ =>
      refine Prod.Lex.left _ _ ?_
      simp only [List.length_append, List.length_cons]
      omega

theorem search_of_limit (h : limit ≤ seen.length) (hq : queue ≠ []) :
    search next limit depth seen queue = (seen, queue) := by
  obtain ⟨⟨a, level⟩, rest, rfl⟩ := List.exists_cons_of_ne_nil hq
  rw [search, if_pos h]

-- A search from a queue, with what it ends with when the queue is empty
theorem search_bounded {current later : List α} (h : Phase next start depth k seen current later) (hs : seen.Nodup)
    (hl : start.length ≤ limit → seen.length ≤ limit)
    (hq : queue = current.map (·, k) ++ later.map (·, k + 1)) :
    Bounded (Step next) start depth limit (search next limit depth seen queue).1 ∧
      ((search next limit depth seen queue).2 = [] →
        ∀ b ∈ Ball (Step next) start depth, b ∈ (search next limit depth seen queue).1) := by
  fun_induction search next limit depth seen queue generalizing k current later with
  | case1 seen =>
    obtain ⟨hc, hd⟩ := List.append_eq_nil_iff.mp hq.symm
    rw [List.map_eq_nil_iff.mp hc, List.map_eq_nil_iff.mp hd] at h
    exact ⟨⟨h.near, hs, hl, fun _ => h.whole⟩, fun _ => h.whole⟩
  | case2 seen a level rest hlim =>
    exact ⟨⟨h.near, hs, hl, fun hn => absurd hn (Nat.not_lt_of_le hlim)⟩, nofun⟩
  | case3 seen a level rest hlim hdeep hi =>
    obtain ⟨current, later, h, rfl⟩ := h.head hq
    exact hi (h.pop hdeep) hs hl rfl
  | case4 seen a level rest hlim hdeep new =>
    rename_i hi
    obtain ⟨current, later, h, rfl⟩ := h.head hq
    have hk := Nat.lt_of_not_le hdeep
    have hlt := Nat.lt_of_not_le hlim
    have hnew : ∀ b ∈ new, b ∈ next a := fun b hb => (mem_of_mem_collect hb).1
    have hsize : start.length ≤ limit → (seen ++ new).length ≤ limit := fun _ => length_collect hlt
    by_cases hfull : limit ≤ (seen ++ new).length
    case neg =>
      refine hi (h.expand hk hnew fun b hb => subset_collect (Nat.lt_of_not_le hfull) hb) (nodup_collect hs) hsize ?_
      simp
    case pos =>
      -- the limit is met, with the nodes that met it in the queue
      have hne : new ≠ [] := by
        intro he
        rw [he, List.append_nil] at hfull
        exact hlim hfull
      rw [search_of_limit hfull (by simp [hne])]
      refine ⟨⟨fun b hb => ?_, nodup_collect hs, hsize, fun hn => absurd hn (Nat.not_lt_of_le hfull)⟩, fun hn => ?_⟩
      · cases List.mem_append.mp hb with
        | inl hb => exact h.near b hb
        | inr hb => exact ball_mono hk (mem_ball_succ.mpr (.inr ⟨a, h.here a List.mem_cons_self, hnew b hb⟩))
      · exact absurd hn (by simp [hne])

-- A search from one node
theorem search_from (hl : 0 < limit) : Bounded (Step next) [a] depth limit (search next limit depth [a] [(a, 0)]).1 ∧
    ((search next limit depth [a] [(a, 0)]).2 = [] →
      ∀ b ∈ Ball (Step next) [a] depth, b ∈ (search next limit depth [a] [(a, 0)]).1) := by
  have h : Phase next [a] depth 0 [a] [a] [] :=
    ⟨Nat.zero_le _, fun _ => rfl, fun b hb => mem_ball_zero.mpr hb, by simp, fun b => by simp [mem_ball_zero],
      fun _ b hb hn => absurd (mem_ball_zero.mp hb) hn⟩
  exact search_bounded h (List.nodup_singleton a) (fun _ => hl) rfl

end Queue
end Neighbourhood
