import Mathlib.Data.List.Sort

-- Sorting by a key. The sort is stable: what the key does not separate stays in the order it came in.
namespace SortBy

variable {α κ : Type} [LinearOrder κ] {key : α → κ} {l l' : List α}

def sortBy (key : α → κ) (l : List α) : List α :=
  l.insertionSort (key · ≤ key ·)

-- No two different elements share their key.
def Separates (key : α → κ) (l : List α) : Prop :=
  ∀ a ∈ l, ∀ b ∈ l, key a = key b → a = b

instance [DecidableEq α] : Decidable (Separates key l) :=
  inferInstanceAs (Decidable (∀ a ∈ l, ∀ b ∈ l, key a = key b → a = b))

instance total_key : Std.Total fun a b => key a ≤ key b where
  total a b := le_total (key a) (key b)

instance trans_key : IsTrans α fun a b => key a ≤ key b where
  trans _ _ _ := le_trans

theorem perm_sortBy : (sortBy key l).Perm l :=
  l.perm_insertionSort _

theorem mem_sortBy {a : α} : a ∈ sortBy key l ↔ a ∈ l :=
  perm_sortBy.mem_iff

theorem pairwise_sortBy : (sortBy key l).Pairwise (key · ≤ key ·) :=
  l.pairwise_insertionSort _

theorem sortBy_sortBy : sortBy key (sortBy key l) = sortBy key l :=
  pairwise_sortBy.insertionSort_eq

omit [LinearOrder κ] in
theorem Separates.perm (h : Separates key l) (hp : l'.Perm l) : Separates key l' :=
  fun a ha b hb => h a (hp.mem_iff.mp ha) b (hp.mem_iff.mp hb)

theorem Separates.sortBy_eq (h : Separates key l) (hp : l'.Perm l) : sortBy key l' = sortBy key l := by
  refine List.Perm.eq_of_pairwise ?_ pairwise_sortBy pairwise_sortBy
    (perm_sortBy.trans (hp.trans perm_sortBy.symm))
  intro a b ha hb hab hba
  exact h a (hp.mem_iff.mp (mem_sortBy.mp ha)) b (mem_sortBy.mp hb) (le_antisymm hab hba)

-- Stability: the elements of one key keep their order.
theorem filter_sortBy {k : κ} : (sortBy key l).filter (key · = k) = l.filter (key · = k) := by
  have hk : (l.filter (key · = k)).Pairwise (key · ≤ key ·) := by
    refine List.pairwise_of_forall_mem_list fun a ha b hb => ?_
    rw [of_decide_eq_true (List.mem_filter.mp ha).2, of_decide_eq_true (List.mem_filter.mp hb).2]
  have hs := (List.sublist_insertionSort hk List.filter_sublist).filter fun a => decide (key a = k)
  rw [List.filter_filter] at hs
  simp only [Bool.and_self] at hs
  exact (hs.eq_of_length_le (perm_sortBy.filter _).length_eq.le).symm

-- Sorting forgets the order of the input exactly when the key tells its elements apart.
theorem separates_iff : Separates key l ↔ ∀ l', l'.Perm l → sortBy key l' = sortBy key l := by
  classical
  constructor
  · exact fun h _ hp => h.sortBy_eq hp
  · intro h a ha b hb hk
    by_contra hne
    have hb' : b ∈ l.erase a := (List.mem_erase_of_ne (Ne.symm hne)).mpr hb
    have hp : l.Perm (a :: b :: (l.erase a).erase b) :=
      (List.perm_cons_erase ha).trans ((List.perm_cons_erase hb').cons a)
    -- Two orders of the input, with `a` and with `b` in front, give one sorted list.
    have he := (h _ hp.symm).trans (h _ ((List.Perm.swap a b _).trans hp.symm)).symm
    have hf := congrArg (List.filter fun c => decide (key c = key a)) he
    rw [filter_sortBy, filter_sortBy] at hf
    simp only [List.filter_cons, hk, decide_true, if_true] at hf
    exact hne (List.cons.inj hf).1

end SortBy
