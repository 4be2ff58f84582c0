import Mathlib.Data.List.Sort
import Mathlib.Data.List.Nodup
import Mathlib.Data.List.TakeDrop
import Mathlib.Order.Defs.LinearOrder

-- Listings in pages that follow a key: a page holds the first rows behind the cursor, and the key of its
-- last row is the cursor of the next page.
namespace Paging

variable {α κ : Type*} [LinearOrder κ] {key : α → κ} {rows : List α} {cursor : Option κ} {limit n : Nat}
  {a b : α}

-- SELECT * FROM rows WHERE key > cursor ORDER BY key LIMIT n
def select (key : α → κ) (rows : List α) (cursor : Option κ) (n : Nat) : List α :=
  ((rows.filter fun a => cursor.all (· < key a)).insertionSort (key · ≤ key ·)).take n

structure Page (α κ : Type*) where
  items : List α
  next  : Option κ

-- One more row than the page can hold shows that there is another page.
def page (key : α → κ) (rows : List α) (cursor : Option κ) (limit : Nat) : Page α κ :=
  let found := select key rows cursor (limit + 1)
  let items := found.take limit
  { items, next := if limit < found.length then items.getLast?.map key else none }

-- The rows of all pages, each asked for with the cursor of the page before, up to the last page. Every
-- request meets the rows as they are then.
def follow (key : α → κ) : Option κ → List (List α × Nat) → Option (List α)
  | _, []                            => none
  | cursor, (rows, limit) :: requests =>
    let p := page key rows cursor limit
    match p.next with
    | none   => if requests = [] then some p.items else none
    | some k => (follow key (some k) requests).map (p.items ++ ·)

-- The rows behind the cursor in the order of their keys
def behind (key : α → κ) (rows : List α) (cursor : Option κ) : List α :=
  (rows.filter fun a => cursor.all (· < key a)).insertionSort (key · ≤ key ·)

theorem select_eq : select key rows cursor n = (behind key rows cursor).take n :=
  rfl

theorem select_map {β : Type*} {key : β → κ} {f : α → β} :
    select key (rows.map f) cursor n = (select (fun a => key (f a)) rows cursor n).map f := by
  have hs := List.map_insertionSort (fun a b => key (f a) ≤ key (f b)) (fun a b => key a ≤ key b) f
    (rows.filter fun a => cursor.all (· < key (f a))) fun _ _ _ _ => Iff.rfl
  rw [select, select, List.map_take, hs, List.filter_map]
  rfl

theorem page_map {β : Type*} {key : β → κ} {f : α → β} : page key (rows.map f) cursor limit =
    { items := (page (fun a => key (f a)) rows cursor limit).items.map f
      next  := (page (fun a => key (f a)) rows cursor limit).next } := by
  simp only [page, select_map, List.map_take, List.length_map]
  simp only [← List.map_take, List.getLast?_map, Option.map_map]
  rfl

theorem mem_behind : a ∈ behind key rows cursor ↔ a ∈ rows ∧ ∀ k ∈ cursor, k < key a := by
  rw [behind, List.mem_insertionSort, List.mem_filter]
  cases cursor <;> simp

theorem pairwise_behind (hk : (rows.map key).Nodup) :
    (behind key rows cursor).Pairwise fun a b => key a < key b := by
  have hs : (behind key rows cursor).Pairwise fun a b => key a ≤ key b :=
    List.pairwise_insertionSort (fun a b => key a ≤ key b) _
  have hn : ((behind key rows cursor).map key).Nodup := by
    refine ((List.perm_insertionSort _ _).map key).nodup_iff.mpr (hk.sublist ?_)
    exact List.filter_sublist.map key
  have hd := List.pairwise_map.mp hn
  exact (hs.and hd).imp fun ⟨hle, hne⟩ => lt_of_le_of_ne hle hne

theorem page_items : (page key rows cursor limit).items = (behind key rows cursor).take limit := by
  rw [page, select_eq, List.take_take, min_eq_left (Nat.le_succ limit)]

theorem page_next : (page key rows cursor limit).next =
    if limit < (behind key rows cursor).length then
      ((behind key rows cursor).take limit).getLast?.map key
    else
      none := by
  rw [page, select_eq, List.take_take, min_eq_left (Nat.le_succ limit), List.length_take]
  simp

-- The last page holds everything behind its cursor.
theorem page_last (h : (page key rows cursor limit).next = none) (hl : 0 < limit) :
    (page key rows cursor limit).items = behind key rows cursor := by
  rw [page_next] at h
  rw [page_items]
  split at h
  case isFalse hlt => exact List.take_of_length_le (Nat.le_of_not_lt hlt)
  case isTrue hlt  =>
    have hne : (behind key rows cursor).take limit ≠ [] := by
      rw [← List.length_pos_iff, List.length_take]
      omega
    rw [Option.map_eq_none_iff, List.getLast?_eq_none_iff] at h
    exact absurd h hne

-- Any other page ends with the row that has the next cursor as its key.
theorem page_more {k : κ} (h : (page key rows cursor limit).next = some k) :
    ∃ items last, (page key rows cursor limit).items = items ++ [last] ∧ key last = k := by
  rw [page_next] at h
  rw [page_items]
  split at h
  case isFalse => cases h
  case isTrue  =>
    have ⟨last, hl, hk⟩ := Option.map_eq_some_iff.mp h
    have ⟨items, he⟩ := List.getLast?_eq_some_iff.mp hl
    exact ⟨items, last, he, hk⟩

theorem page_sublist : (page key rows cursor limit).items.Sublist (behind key rows cursor) := by
  rw [page_items]
  exact List.take_sublist ..

-- What a page that is not the last leaves out lies behind the next cursor, and what it holds does not.
theorem page_split {k : κ} (hk : (rows.map key).Nodup) (h : (page key rows cursor limit).next = some k)
    (ha : a ∈ behind key rows cursor) : a ∈ (page key rows cursor limit).items ↔ key a ≤ k := by
  have ⟨items, last, he, hl⟩ := page_more h
  have hp := @pairwise_behind _ _ _ _ _ cursor hk
  rw [← List.take_append_drop limit (behind key rows cursor), ← page_items, he] at hp ha
  have ⟨hi, _, hd⟩ := List.pairwise_append.mp hp
  rw [he]
  constructor
  · intro hm
    cases List.mem_append.mp hm with
    | inl hm => exact hl ▸ (List.pairwise_append.mp hi).2.2 a hm last (List.mem_singleton_self _) |>.le
    | inr hm => exact (hl ▸ List.mem_singleton.mp hm ▸ le_refl _)
  · intro hle
    cases List.mem_append.mp ha with
    | inl hm => exact hm
    | inr hm =>
      have hlt := hd last (List.mem_append_right _ (List.mem_singleton_self _)) a hm
      exact absurd (hl ▸ hlt) (not_lt_of_ge hle)

structure Complete (key : α → κ) (cursor : Option κ) (requests : List (List α × Nat)) (items : List α) :
    Prop where
  ordered : items.Pairwise fun a b => key a < key b
  behind  : ∀ a ∈ items, ∀ k ∈ cursor, k < key a
  origin  : ∀ a ∈ items, ∃ request ∈ requests, a ∈ request.fst
  covers  : ∀ k, (∀ request ∈ requests, ∃ a ∈ request.fst, key a = k) → (∀ k' ∈ cursor, k' < k) →
    ∃ a ∈ items, key a = k

theorem follow_complete {requests : List (List α × Nat)} {items : List α}
    (hr : ∀ request ∈ requests, (request.fst.map key).Nodup ∧ 0 < request.snd)
    (h : follow key cursor requests = some items) : Complete key cursor requests items := by
  induction requests generalizing cursor items with
  | nil                   => cases h
  | cons request rest hi =>
    obtain ⟨rows, limit⟩ := request
    have ⟨⟨hk, hl⟩, hrest⟩ := List.forall_mem_cons.mp hr
    unfold follow at h
    dsimp only at h
    split at h
    case h_1 hn    =>
      split at h
      case isFalse    => cases h
      case isTrue he =>
        have hp := page_last hn hl
        subst he
        cases h
        rw [hp]
        exact {
          ordered := pairwise_behind hk
          behind  := fun a ha => (mem_behind.mp ha).right
          origin  := fun a ha => ⟨_, List.mem_cons_self, (mem_behind.mp ha).left⟩
          covers  := fun k ha hc =>
            have ⟨a, ha, he⟩ := ha _ List.mem_cons_self
            ⟨a, mem_behind.mpr ⟨ha, he ▸ hc⟩, he⟩
        }
    case h_2 k hn =>
      have ⟨more, hm, he⟩ := Option.map_eq_some_iff.mp h
      have c := hi hrest hm
      subst he
      have hb {a : α} (ha : a ∈ (page key rows cursor limit).items) := page_sublist.mem ha
      have hk' {a : α} (ha : a ∈ (page key rows cursor limit).items) : key a ≤ k :=
        (page_split hk hn (hb ha)).mp ha
      -- The next cursor is the key of a row behind this one.
      have hck : ∀ k' ∈ cursor, k' < k := by
        have ⟨items, last, hi, hl⟩ := page_more hn
        exact hl ▸ (mem_behind.mp (hb (hi ▸ List.mem_append_right _ (List.mem_singleton_self _)))).right
      exact {
        ordered := by
          refine List.pairwise_append.mpr ⟨(pairwise_behind hk).sublist page_sublist, c.ordered, ?_⟩
          exact fun a ha b hb => (hk' ha).trans_lt (c.behind b hb k rfl)
        behind  := fun a ha k' hk'' => by
          cases List.mem_append.mp ha with
          | inl ha => exact (mem_behind.mp (hb ha)).right k' hk''
          | inr ha => exact (hck k' hk'').trans (c.behind a ha k rfl)
        origin  := fun a ha => by
          cases List.mem_append.mp ha with
          | inl ha => exact ⟨_, List.mem_cons_self, (mem_behind.mp (hb ha)).left⟩
          | inr ha =>
            have ⟨request, hr, ha⟩ := c.origin a ha
            exact ⟨request, List.mem_cons_of_mem _ hr, ha⟩
        covers  := fun l ha hc => by
          by_cases hle : l ≤ k
          case pos =>
            have ⟨a, ha, he⟩ := ha _ List.mem_cons_self
            have hab : a ∈ behind key rows cursor := mem_behind.mpr ⟨ha, he ▸ hc⟩
            exact ⟨a, List.mem_append_left _ ((page_split hk hn hab).mpr (he ▸ hle)), he⟩
          case neg =>
            have hlt : ∀ k' ∈ some k, k' < l := fun k' hk' => Option.some.inj hk' ▸ lt_of_not_ge hle
            have ⟨a, ha, he⟩ := c.covers l (fun r hr => ha r (List.mem_cons_of_mem _ hr)) hlt
            exact ⟨a, List.mem_append_right _ ha, he⟩
      }

-- A row that every request meets is among the items exactly once, provided that nothing else is taken for it.
theorem Complete.once {requests : List (List α × Nat)} {items : List α} {k : κ}
    (c : Complete key none requests items) (same : α → Bool) (hk : ∀ request ∈ requests, ∃ a ∈ request.fst, key a = k)
    (hs : ∀ request ∈ requests, ∀ a ∈ request.fst, same a = true ↔ key a = k) :
    ∃ a, items.filter same = [a] ∧ key a = k := by
  have hi {a : α} (ha : a ∈ items) : same a = true ↔ key a = k :=
    have ⟨request, hr, ha⟩ := c.origin a ha
    hs request hr a ha
  have ⟨a, ha, he⟩ := c.covers k hk (fun _ h => nomatch h)
  have ⟨l₁, l₂, hl⟩ := List.append_of_mem ha
  have ho := hl ▸ c.ordered
  have ⟨_, ho₂, ho₁⟩ := List.pairwise_append.mp ho
  refine ⟨a, ?_, he⟩
  have h₁ : l₁.filter same = [] := List.filter_eq_nil_iff.mpr fun b hb hsb => by
    have hlt := ho₁ b hb a List.mem_cons_self
    have hkb := (hi (hl ▸ List.mem_append_left _ hb)).mp hsb
    exact absurd (hkb.trans he.symm) hlt.ne
  have h₂ : l₂.filter same = [] := List.filter_eq_nil_iff.mpr fun b hb hsb => by
    have hlt := (List.pairwise_cons.mp ho₂).left b hb
    have hkb := (hi (hl ▸ List.mem_append_right _ (List.mem_cons_of_mem _ hb))).mp hsb
    exact absurd (he.trans hkb.symm) hlt.ne
  rw [hl, List.filter_append, List.filter_cons_of_pos ((hi ha).mpr he), h₁, h₂]
  rfl

end Paging
