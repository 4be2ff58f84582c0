import Mathlib.Data.List.Nodup

-- Lists of keys with values, as Python builds and reads a dict.
namespace Assoc

variable {κ ν : Type*} [DecidableEq κ] {d items : List (κ × ν)} {key : κ} {value : ν}

def get (d : List (κ × ν)) (key : κ) : Option ν :=
  (d.find? (·.fst = key)).map (·.snd)

-- `d[key] = value`: an existing key keeps its place.
def set : List (κ × ν) → κ → ν → List (κ × ν)
  | [], key, value       => [(key, value)]
  | hd :: tl, key, value => if hd.fst = key then (key, value) :: tl else hd :: set tl key value

-- `dict(items)`
def dict (items : List (κ × ν)) : List (κ × ν) :=
  items.foldl (fun d item => set d item.fst item.snd) []

theorem mem_of_get (h : get d key = some value) : (key, value) ∈ d := by
  have ⟨item, hf, hv⟩ := Option.map_eq_some_iff.mp h
  have hk : item.fst = key := by simpa using List.find?_some hf
  subst hk hv
  exact List.mem_of_find?_eq_some hf

theorem get_isSome (h : (key, value) ∈ d) : ∃ value, get d key = some value := by
  cases hg : get d key with
  | some value => exact ⟨value, rfl⟩
  | none       =>
    have hn := List.find?_eq_none.mp (Option.map_eq_none_iff.mp hg) _ h
    simp at hn

theorem get_map {keys : List κ} {f : κ → ν} (h : key ∈ keys) :
    get (keys.map fun key => (key, f key)) key = some (f key) := by
  have hm : (key, f key) ∈ keys.map fun key => (key, f key) := List.mem_map.mpr ⟨key, h, rfl⟩
  have ⟨value, hg⟩ := get_isSome hm
  have ⟨_, _, he⟩ := List.mem_map.mp (mem_of_get hg)
  have ⟨hk, hv⟩ := Prod.mk.inj he
  rw [hg, ← hv, hk]

theorem mem_of_mem_set {item : κ × ν} (h : item ∈ set d key value) : item ∈ d ∨ item = (key, value) := by
  induction d with
  | nil           => exact .inr (List.mem_singleton.mp h)
  | cons hd tl hi =>
    unfold set at h
    split at h
    case isTrue =>
      cases List.mem_cons.mp h with
      | inl h => exact .inr h
      | inr h => exact .inl (List.mem_cons_of_mem _ h)
    case isFalse =>
      cases List.mem_cons.mp h with
      | inl h => exact .inl (h ▸ List.mem_cons_self)
      | inr h =>
        cases hi h with
        | inl h => exact .inl (List.mem_cons_of_mem _ h)
        | inr h => exact .inr h

theorem mem_of_mem_dict {item : κ × ν} (h : item ∈ dict items) : item ∈ items := by
  suffices hf : ∀ d : List (κ × ν), item ∈ items.foldl (fun d item => set d item.fst item.snd) d →
      item ∈ d ∨ item ∈ items by
    cases hf [] h with
    | inl h => cases h
    | inr h => exact h
  clear h
  induction items with
  | nil           => exact fun _ h => .inl h
  | cons hd tl hi =>
    intro d h
    cases hi _ h with
    | inr h => exact .inr (List.mem_cons_of_mem _ h)
    | inl h =>
      cases mem_of_mem_set h with
      | inl h => exact .inl h
      | inr h => exact .inr (h ▸ List.mem_cons_self)

theorem mem_of_get_dict (h : get (dict items) key = some value) : (key, value) ∈ items :=
  mem_of_mem_dict (mem_of_get h)

theorem get_of_mem (distinct : (d.map (·.fst)).Nodup) (h : (key, value) ∈ d) : get d key = some value := by
  have ⟨value', hg⟩ := get_isSome h
  have he : (key, value') = (key, value) := List.inj_on_of_nodup_map distinct (mem_of_get hg) h rfl
  exact hg.trans <| congrArg some (Prod.mk.inj he).right

theorem get_eq_some_iff (distinct : (d.map (·.fst)).Nodup) :
    get d key = some value ↔ (key, value) ∈ d :=
  ⟨mem_of_get, get_of_mem distinct⟩

theorem set_of_not_mem (h : key ∉ d.map (·.fst)) : set d key value = d ++ [(key, value)] := by
  induction d with
  | nil           => rfl
  | cons hd tl hi =>
    simp only [List.map_cons, List.mem_cons, not_or] at h
    rw [set, if_neg (Ne.symm h.left), hi h.right, List.cons_append]

theorem foldl_set (h : ((d ++ items).map (·.fst)).Nodup) :
    items.foldl (fun d item => set d item.fst item.snd) d = d ++ items := by
  induction items generalizing d with
  | nil           => exact (List.append_nil d).symm
  | cons hd tl hi =>
    have hk : hd.fst ∉ d.map (·.fst) := by
      intro hm
      rw [List.map_append, List.map_cons] at h
      exact (List.nodup_append.mp h).right.right hd.fst hm hd.fst List.mem_cons_self rfl
    rw [List.foldl_cons, set_of_not_mem hk, hi (by simpa using h), List.append_assoc, List.singleton_append]

theorem dict_of_distinct (distinct : (items.map (·.fst)).Nodup) : dict items = items :=
  foldl_set (d := []) distinct

theorem keys_set : (set d key value).map (·.fst) =
    if key ∈ d.map (·.fst) then d.map (·.fst) else d.map (·.fst) ++ [key] := by
  induction d with
  | nil           => rfl
  | cons hd tl hi =>
    by_cases h : hd.fst = key
    case pos => simp [set, h]
    case neg =>
      simp only [set, h, if_false, List.map_cons, hi, List.mem_cons, Ne.symm h, false_or]
      split <;> rfl

theorem nodup_set (h : (d.map (·.fst)).Nodup) : ((set d key value).map (·.fst)).Nodup := by
  rw [keys_set]
  split
  case isTrue     => exact h
  case isFalse hk =>
    refine List.nodup_append.mpr ⟨h, by simp, fun a ha b hb hab => hk ?_⟩
    exact List.mem_singleton.mp hb ▸ hab ▸ ha

theorem get_set {k : κ} : get (set d key value) k = if k = key then some value else get d k := by
  induction d with
  | nil           => by_cases h : key = k <;> simp [set, get, h, eq_comm]
  | cons hd tl hi =>
    rw [set]
    split
    case isTrue h  =>
      by_cases hk : key = k
      case pos => simp [get, hk]
      case neg => simp [get, hk, h, Ne.symm hk]
    case isFalse h =>
      by_cases hk : hd.fst = k
      case pos => simp [get, hk, show k ≠ key from hk ▸ h]
      case neg => simpa [get, hk] using hi

theorem get_filter {k : κ} : get (d.filter (·.fst ≠ key)) k = if k = key then none else get d k := by
  rw [get, get, List.find?_filter]
  split
  case isTrue h  =>
    subst h
    simp
  case isFalse h =>
    congr
    funext item
    by_cases hk : item.fst = k
    case pos => simp [hk, h]
    case neg => simp [hk]

theorem exists_get_dict (h : (key, value) ∈ items) : ∃ value, get (dict items) key = some value := by
  suffices hf : ∀ d : List (κ × ν), ((get d key).isSome ∨ (key, value) ∈ items) →
      (get (items.foldl (fun d item => set d item.fst item.snd) d) key).isSome from
    Option.isSome_iff_exists.mp (hf [] (.inr h))
  clear h
  induction items with
  | nil           => exact fun _ h => h.resolve_right List.not_mem_nil
  | cons hd tl hi =>
    intro d h
    refine hi _ ?_
    rw [get_set]
    split
    case isTrue     => exact .inl rfl
    case isFalse hk =>
      refine h.imp id fun h => (List.mem_cons.mp h).resolve_left fun he => hk ?_
      rw [← he]

theorem nodup_dict : ((dict items).map (·.fst)).Nodup := by
  suffices ∀ d : List (κ × ν), (d.map (·.fst)).Nodup →
      ((items.foldl (fun d item => set d item.fst item.snd) d).map (·.fst)).Nodup from this [] .nil
  induction items with
  | nil           => exact fun _ h => h
  | cons hd tl hi => exact fun _ h => hi _ (nodup_set h)

section Merge

variable {f : ν → κ} {values : List ν}

theorem nodup_foldl_set (h : (d.map (·.fst)).Nodup) :
    ((values.foldl (fun d v => set d (f v) v) d).map (·.fst)).Nodup := by
  induction values generalizing d with
  | nil          => exact h
  | cons v vs hi => exact hi (nodup_set h)

-- Values that bring their keys with them, each key once
theorem get_foldl_set_iff (hv : (values.map f).Nodup) :
    get (values.foldl (fun d v => set d (f v) v) d) key = some value ↔
      (value ∈ values ∧ f value = key) ∨ (get d key = some value ∧ ∀ v ∈ values, f v ≠ key) := by
  induction values generalizing d with
  | nil          => simp
  | cons v vs hi =>
    have ⟨hnew, hvs⟩ := List.nodup_cons.mp (List.map_cons ▸ hv)
    rw [List.foldl_cons, hi hvs, get_set]
    by_cases hk : key = f v
    case pos =>
      subst hk
      have hne : ∀ w ∈ vs, f w ≠ f v := fun w hw he => hnew (List.mem_map.mpr ⟨w, hw, he⟩)
      simp only [if_pos, Option.some.injEq, List.mem_cons, forall_eq_or_imp, ne_eq, not_true_eq_false, false_and,
        and_false, or_false]
      constructor
      case mp =>
        rintro (⟨hm, he⟩ | ⟨rfl, _⟩)
        · exact absurd he (hne value hm)
        · exact ⟨.inl rfl, rfl⟩
      case mpr =>
        rintro ⟨rfl | hm, he⟩
        · exact .inr ⟨rfl, hne⟩
        · exact absurd he (hne value hm)
    case neg =>
      simp only [if_neg hk, List.mem_cons, forall_eq_or_imp, ne_eq, Ne.symm hk, not_false_eq_true, true_and]
      refine or_congr_left (and_congr_left fun he => ?_)
      rw [or_iff_right]
      rintro rfl
      exact hk he.symm

end Merge
end Assoc
