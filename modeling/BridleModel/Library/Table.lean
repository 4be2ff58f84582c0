import Mathlib.Data.List.Basic
import Mathlib.Data.List.Pairwise
import Mathlib.Data.List.Nodup

-- An SQL table is the list of its rows in insertion order. `keys` assigns to each row the values it
-- occupies in the table's unique indices (a partial index contributes a key only while its condition
-- holds), and no two rows of a table share a key.
structure Table (α : Type*) {κ : Type*} (keys : α → List κ) where
  rows   : List α
  unique : rows.Pairwise fun a b => ∀ k ∈ keys a, k ∉ keys b

namespace Table

variable {α κ : Type*} {keys : α → List κ} {t t' : Table α keys} {a b : α} {k : κ}

instance : Membership α (Table α keys) where
  mem t a := a ∈ t.rows

theorem mem_def : a ∈ t ↔ a ∈ t.rows :=
  .rfl

instance (p : α → Prop) [DecidablePred p] : Decidable (∀ a ∈ t, p a) :=
  inferInstanceAs (Decidable (∀ a ∈ t.rows, p a))

theorem ext_rows (h : t.rows = t'.rows) : t = t' := by
  cases t; cases t'; cases h; rfl

theorem eq_of_mem_keys (ha : a ∈ t) (hb : b ∈ t) (hka : k ∈ keys a) (hkb : k ∈ keys b) : a = b := by
  by_contra hn
  have : Std.Symm fun a b : α => ∀ k ∈ keys a, k ∉ keys b := ⟨fun _ _ h k hb ha => h k ha hb⟩
  exact t.unique.forall ha hb hn k hka hkb

def empty : Table α keys where
  rows   := []
  unique := .nil

@[simp]
theorem rows_empty : (empty : Table α keys).rows = [] :=
  rfl

@[simp]
theorem not_mem_empty : a ∉ (empty : Table α keys) :=
  List.not_mem_nil

section Lookup

variable [DecidableEq κ]

-- SELECT * WHERE the unique index has the value `k`.
def lookup (t : Table α keys) (k : κ) : Option α :=
  t.rows.find? (k ∈ keys ·)

theorem lookup_eq_some_iff : t.lookup k = some a ↔ a ∈ t ∧ k ∈ keys a := by
  constructor
  · intro h
    exact ⟨List.mem_of_find?_eq_some h, by simpa using List.find?_some h⟩
  · intro ⟨hm, hk⟩
    cases hl : t.lookup k with
    | none   => simpa [hk] using List.find?_eq_none.mp hl a hm
    | some b =>
      have hb : k ∈ keys b := by simpa using List.find?_some hl
      rw [eq_of_mem_keys hm (List.mem_of_find?_eq_some hl) hk hb]

theorem lookup_mem (h : t.lookup k = some a) : a ∈ t :=
  lookup_eq_some_iff.mp h |>.left

theorem lookup_key (h : t.lookup k = some a) : k ∈ keys a :=
  lookup_eq_some_iff.mp h |>.right

theorem lookup_eq_none_iff : t.lookup k = none ↔ ∀ a ∈ t, k ∉ keys a := by
  simp [lookup, List.find?_eq_none, mem_def]

theorem lookup_congr {k' : κ} (h : ∀ a, t.lookup k = some a ↔ t'.lookup k' = some a) :
    t.lookup k = t'.lookup k' :=
  Option.ext h

@[simp]
theorem lookup_empty : (empty : Table α keys).lookup k = none :=
  rfl

end Lookup

section Insert

variable [DecidableEq κ]

-- INSERT: the new row comes last, and a row that repeats a key is rejected (`IntegrityError`).
def insert? (t : Table α keys) (a : α) : Option (Table α keys) :=
  if h : ∀ b ∈ t.rows, ∀ k ∈ keys b, k ∉ keys a then
    some {
      rows   := t.rows ++ [a]
      unique := List.pairwise_append.mpr ⟨t.unique, List.pairwise_singleton .., by simpa using h⟩
    }
  else
    none

theorem insert?_rows (h : t.insert? a = some t') : t'.rows = t.rows ++ [a] := by
  unfold insert? at h
  split at h <;> cases h
  rfl

theorem insert?_fresh (h : t.insert? a = some t') (hb : b ∈ t) (hk : k ∈ keys b) : k ∉ keys a := by
  unfold insert? at h
  split at h
  case isTrue hf => exact hf b hb k hk
  case isFalse   => cases h

theorem mem_insert? (h : t.insert? a = some t') : b ∈ t' ↔ b ∈ t ∨ b = a := by
  simp [mem_def, insert?_rows h]

-- INSERT OR IGNORE
theorem mem_insertIgnore (h : b ∈ t) : b ∈ (t.insert? a).getD t := by
  cases hi : t.insert? a with
  | none    => exact h
  | some t' => exact (mem_insert? hi).mpr (.inl h)

-- INSERT of several rows
theorem mem_of_insertAll {as : List α} (h : as.foldlM insert? t = some t') (hb : b ∈ t') :
    b ∈ t ∨ b ∈ as := by
  induction as generalizing t with
  | nil          => exact .inl (Option.some.inj h ▸ hb)
  | cons a as hi =>
    rw [List.foldlM_cons] at h
    obtain ⟨t₁, h₁, h₂⟩ := Option.bind_eq_some_iff.mp h
    cases hi h₂ with
    | inr hb => exact .inr (List.mem_cons_of_mem _ hb)
    | inl hb =>
      cases (mem_insert? h₁).mp hb with
      | inl hb => exact .inl hb
      | inr hb => exact .inr (hb ▸ List.mem_cons_self)

theorem insert?_isSome (h : ∀ k ∈ keys a, t.lookup k = none) : ∃ t', t.insert? a = some t' := by
  have hf : ∀ b ∈ t.rows, ∀ k ∈ keys b, k ∉ keys a :=
    fun b hb k hkb hka => lookup_eq_none_iff.mp (h k hka) b hb hkb
  exact ⟨_, dif_pos hf⟩

theorem lookup_insert? (h : t.insert? a = some t') (k : κ) :
    t'.lookup k = if k ∈ keys a then some a else t.lookup k := by
  ext b
  rw [lookup_eq_some_iff, mem_insert? h]
  split
  case isTrue hk =>
    constructor
    · rintro ⟨hb | rfl, hkb⟩
      · exact absurd hk (insert?_fresh h hb hkb)
      · rfl
    · rintro ⟨⟩
      exact ⟨.inr rfl, hk⟩
  case isFalse hk =>
    rw [lookup_eq_some_iff]
    constructor
    · rintro ⟨hb | rfl, hkb⟩
      · exact ⟨hb, hkb⟩
      · contradiction
    · exact fun ⟨hb, hkb⟩ => ⟨.inl hb, hkb⟩

end Insert

section Modify

-- UPDATE ... WHERE p: `f` may give keys of a row up but takes no new ones.
def modify (t : Table α keys) (p : α → Bool) (f : α → α) (h : ∀ a, p a → keys (f a) ⊆ keys a) :
    Table α keys where
  rows   := t.rows.map fun a => if p a then f a else a
  unique := by
    have hsub : ∀ a, keys (if p a then f a else a) ⊆ keys a := by
      intro a
      split
      · exact h a ‹_›
      · exact List.Subset.refl _
    refine List.pairwise_map.mpr <| t.unique.imp ?_
    exact fun hab k hka hkb => hab k (hsub _ hka) (hsub _ hkb)

variable {p : α → Bool} {f : α → α} {h : ∀ a, p a → keys (f a) ⊆ keys a}

-- An update that leaves the indexed columns alone
theorem keep (h : ∀ a, keys (f a) = keys a) : ∀ a, p a → keys (f a) ⊆ keys a :=
  fun a _ => h a ▸ List.Subset.refl _

theorem mem_modify : b ∈ t.modify p f h ↔ ∃ a ∈ t, (if p a then f a else a) = b := by
  simp [mem_def, modify]

theorem modify_mem (ha : a ∈ t) : (if p a then f a else a) ∈ t.modify p f h :=
  mem_modify.mpr ⟨a, ha, rfl⟩

theorem modify_eq_self (hp : ∀ a ∈ t, p a = false) : t.modify p f h = t := by
  apply ext_rows
  simp only [modify]
  exact (List.map_congr_left fun a ha => by simp [hp a ha]).trans (List.map_id _)

variable [DecidableEq κ]

theorem lookup_modify (k : κ) :
    (t.modify p f h).lookup k =
      ((t.lookup k).map fun a => if p a then f a else a).filter (k ∈ keys ·) := by
  ext b
  simp only [lookup_eq_some_iff, mem_modify, Option.filter_eq_some_iff, Option.map_eq_some_iff,
    decide_eq_true_eq]
  constructor
  · rintro ⟨⟨a, ha, rfl⟩, hk⟩
    refine ⟨⟨a, ⟨ha, ?_⟩, rfl⟩, hk⟩
    split at hk
    · exact h a ‹_› hk
    · exact hk
  · rintro ⟨⟨a, ⟨ha, -⟩, rfl⟩, hk⟩
    exact ⟨⟨a, ha, rfl⟩, hk⟩

-- The common case, where the update leaves the indexed columns alone.
theorem lookup_modify_of_keys_eq (he : ∀ a, p a → keys (f a) = keys a) (k : κ) :
    (t.modify p f h).lookup k = (t.lookup k).map fun a => if p a then f a else a := by
  rw [lookup_modify]
  cases hl : t.lookup k with
  | none   => rfl
  | some a =>
    have hk := lookup_key hl
    simp only [Option.map_some, Option.filter_some, decide_eq_true_eq, ite_eq_left_iff]
    intro hn
    refine absurd ?_ hn
    split
    · exact he a ‹_› ▸ hk
    · exact hk

end Modify

section Delete

-- DELETE ... WHERE p.
def delete (t : Table α keys) (p : α → Bool) : Table α keys where
  rows   := t.rows.filter (!p ·)
  unique := t.unique.filter _

variable {p : α → Bool}

theorem mem_delete : a ∈ t.delete p ↔ a ∈ t ∧ p a = false := by
  simp [mem_def, delete]

theorem delete_eq_self (hp : ∀ a ∈ t, p a = false) : t.delete p = t := by
  apply ext_rows
  exact List.filter_eq_self.mpr fun a ha => by simp [hp a ha]

theorem lookup_delete [DecidableEq κ] (k : κ) :
    (t.delete p).lookup k = (t.lookup k).filter (!p ·) := by
  ext a
  simp only [lookup_eq_some_iff, mem_delete, Option.filter_eq_some_iff, Bool.not_eq_true']
  exact ⟨fun ⟨⟨hm, hp⟩, hk⟩ => ⟨⟨hm, hk⟩, hp⟩, fun ⟨⟨hm, hk⟩, hp⟩ => ⟨⟨hm, hp⟩, hk⟩⟩

end Delete

section Replace

variable [DecidableEq κ]

-- INSERT OR REPLACE: the rows that share a key with the new one go.
def replace (t : Table α keys) (a : α) : Table α keys where
  rows   := (t.rows.filter fun b => (keys b).all (· ∉ keys a)) ++ [a]
  unique := by
    refine List.pairwise_append.mpr ⟨t.unique.filter _, List.pairwise_singleton .., fun b hb c hc k hkb => ?_⟩
    cases List.mem_singleton.mp hc
    have := (List.mem_filter.mp hb).2
    simp only [List.all_eq_true, decide_eq_true_eq] at this
    exact this k hkb

theorem mem_replace : b ∈ t.replace a ↔ (b ∈ t ∧ ∀ k ∈ keys b, k ∉ keys a) ∨ b = a := by
  simp [mem_def, replace]

end Replace

section Rowcount

def rowcount (t : Table α keys) (p : α → Bool) : Nat :=
  t.rows.countP p

variable {p : α → Bool}

theorem rowcount_eq_zero_iff : t.rowcount p = 0 ↔ ∀ a ∈ t, p a = false := by
  simp [rowcount, List.countP_eq_zero, mem_def]

-- A statement whose condition fixes a unique key touches one row or none.
theorem rowcount_eq_one_iff [DecidableEq κ] (hp : ∀ a, p a → k ∈ keys a) :
    t.rowcount p = 1 ↔ ∃ a, t.lookup k = some a ∧ p a := by
  constructor
  · intro h
    have hpos : 0 < t.rows.countP p := Nat.lt_of_lt_of_eq Nat.one_pos h.symm
    have ⟨a, ha, hpa⟩ := List.countP_pos_iff.mp hpos
    exact ⟨a, lookup_eq_some_iff.mpr ⟨ha, hp a hpa⟩, hpa⟩
  · rintro ⟨a, hl, hpa⟩
    have ⟨s, e, hs⟩ := List.append_of_mem (lookup_mem hl)
    have hu := hs ▸ t.unique
    have others : ∀ b, (b ∈ s ∨ b ∈ e) → p b = false := by
      intro b hb
      have hn : ∀ k ∈ keys a, k ∉ keys b := by
        rw [List.pairwise_append] at hu
        rcases hb with hb | hb
        · exact fun k hka hkb => hu.2.2 b hb a List.mem_cons_self k hkb hka
        · exact List.pairwise_cons.mp hu.2.1 |>.1 b hb
      exact Bool.eq_false_iff.mpr fun hpb => hn k (lookup_key hl) (hp b hpb)
    have h₁ : s.countP p = 0 := List.countP_eq_zero.mpr fun b hb => by simp [others b (.inl hb)]
    have h₂ : e.countP p = 0 := List.countP_eq_zero.mpr fun b hb => by simp [others b (.inr hb)]
    simp [rowcount, hs, List.countP_append, hpa, h₁, h₂]

theorem rowcount_le_one [DecidableEq κ] (hp : ∀ a, p a → k ∈ keys a) : t.rowcount p ≤ 1 := by
  by_cases h : ∀ a ∈ t, p a = false
  case pos =>
    rw [rowcount_eq_zero_iff.mpr h]
    exact Nat.zero_le _
  case neg =>
    push Not at h
    have ⟨a, ha, hpa⟩ := h
    have hpa : p a = true := by simpa using hpa
    exact Nat.le_of_eq <| (rowcount_eq_one_iff hp).mpr ⟨a, lookup_eq_some_iff.mpr ⟨ha, hp a hpa⟩, hpa⟩

section Modify

variable {q : α → Bool} {f : α → α} {h : ∀ a, p a → keys (f a) ⊆ keys a}

theorem rowcount_modify_le (hq : ∀ a ∈ t, p a → q (f a) → q a) :
    (t.modify p f h).rowcount q ≤ t.rowcount q := by
  simp only [rowcount, modify, List.countP_map]
  refine List.countP_mono_left fun a ha hc => ?_
  simp only [Function.comp] at hc
  split at hc
  case isTrue hp => exact hq a ha hp hc
  case isFalse   => exact hc

-- An update that takes a row out of the count
theorem rowcount_modify_lt (hq : ∀ a ∈ t, p a → q (f a) → q a) (ha : a ∈ t) (hp : p a) (hqa : q a)
    (hn : q (f a) = false) : (t.modify p f h).rowcount q < t.rowcount q := by
  have ⟨s, e, hs⟩ := List.append_of_mem ha
  have side : ∀ l : List α, (∀ b ∈ l, b ∈ t) → (l.map fun a => if p a then f a else a).countP q ≤ l.countP q := by
    intro l hl
    rw [List.countP_map]
    refine List.countP_mono_left fun b hb hc => ?_
    simp only [Function.comp] at hc
    split at hc
    case isTrue hp => exact hq b (hl b hb) hp hc
    case isFalse   => exact hc
  have hleft := side s fun b hb => mem_def.mpr <| hs ▸ List.mem_append_left _ hb
  have hright := side e fun b hb => mem_def.mpr <| hs ▸ List.mem_append_right _ (List.mem_cons_of_mem _ hb)
  simp only [rowcount, modify, hs, List.map_append, List.map_cons, List.countP_append, List.countP_cons,
    if_pos hp, hn, hqa]
  simp only [Bool.false_eq_true, if_false, if_true]
  omega

end Modify
end Rowcount
end Table
