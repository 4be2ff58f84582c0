import BridleModel.Json.Canonical
import BridleModel.Library.Except

-- The conversions that Python code applies to the values of a JSON document.
namespace Python

inductive Exc
  | typeError
  | keyError (key : String)
  | valueError (message : String)
deriving DecidableEq, Repr

-- What the conversions take from the interpreter: `repr` of a list or a dict and `int` of a text.
structure Conversions where
  repr     : Json → String
  parseInt : String → Option Int

-- `bool(value)`
def truthy : Json → Bool
  | .null     => false
  | .bool b   => b
  | .num n    => n ≠ 0
  | .str s    => s ≠ ""
  | .arr vs   => !vs.isEmpty
  | .obj d    => !d.isEmpty

-- `value[key]` for a text `key`.
def subscript (v : Json) (key : String) : Except Exc Json :=
  match v with
  | .obj d =>
    match Json.Dict.get d key with
    | some v => .ok v
    | none   => .error (.keyError key)
  | _      => .error .typeError

-- `value.get(key)`, where a value that is not a dict has failed before.
def getKey (v : Json) (key : String) : Option Json :=
  match v with
  | .obj d => Json.Dict.get d key
  | _      => none

-- `list(value or [])`
def itemsOrEmpty : Option Json → Except Exc (List Json)
  | none   => .ok []
  | some v =>
    if truthy v then
      match v with
      | .arr vs => .ok vs
      | .str s  => .ok (s.toList.map fun c => .str c.toString)
      | .obj d  => .ok (d.map fun f => .str f.fst)
      | _       => .error .typeError
    else
      .ok []

namespace Conversions

variable (py : Conversions)

def str : Json → String
  | .null       => "None"
  | .bool true  => "True"
  | .bool false => "False"
  | .num n      => toString n
  | .str s      => s
  | v           => py.repr v

-- `str(value or "")`
def strOrEmpty : Option Json → String
  | none   => ""
  | some v => if truthy v then py.str v else ""

def int : Json → Except Exc Int
  | .bool b => .ok (if b then 1 else 0)
  | .num n  => .ok n
  | .str s  =>
    match py.parseInt s with
    | some n => .ok n
    | none   => .error (.valueError "invalid literal for int()")
  | _       => .error .typeError

variable {py} {s : String} {n : Int}

@[simp]
theorem str_str : py.str (.str s) = s :=
  rfl

@[simp]
theorem int_num : py.int (.num n) = .ok n :=
  rfl

@[simp]
theorem strOrEmpty_str : py.strOrEmpty (some (.str s)) = s := by
  by_cases h : s = ""
  case pos => simp [strOrEmpty, truthy, h]
  case neg => simp [strOrEmpty, truthy, h]

end Conversions

@[simp]
theorem itemsOrEmpty_arr {vs : List Json} : itemsOrEmpty (some (.arr vs)) = .ok vs := by
  cases vs with
  | nil      => rfl
  | cons _ _ => rfl

end Python

namespace Json

-- Values with one canonical form are of one kind, and their parts have one canonical form.
section Inversion

variable {v w : Json} {s : String} {n : Int} {items : List Json} {d e : Dict} {key : String}

theorem canonical_eq_str_iff : canonical v = canonical (.str s) ↔ v = .str s := by
  cases v with
  | _ => simp [canonical]

theorem canonical_eq_num_iff : canonical v = canonical (.num n) ↔ v = .num n := by
  cases v with
  | _ => simp [canonical]

theorem canonical_eq_arr (h : canonical v = canonical (.arr items)) :
    ∃ items', v = .arr items' ∧ items'.map canonical = items.map canonical := by
  cases v with
  | arr items' =>
    rw [canonical, canonical, canonicalItems_eq_map, canonicalItems_eq_map] at h
    exact ⟨items', rfl, Json.arr.inj h⟩
  | _          => simp [canonical] at h

theorem canonical_eq_obj (h : canonical v = canonical (.obj d)) : ∃ d', v = .obj d' := by
  cases v with
  | obj d' => exact ⟨d', rfl⟩
  | _      => simp [canonical] at h

theorem distinctItems_iff : DistinctItems items ↔ ∀ v ∈ items, Distinct v := by
  induction items with
  | nil           => simp [DistinctItems]
  | cons hd tl hi => simp [DistinctItems, hi]

theorem Distinct.of_get (h : Distinct (.obj d)) (hg : d.get key = some v) : Distinct v :=
  distinctFields_iff.mp h.2 (key, v) ((Dict.get_eq_some_iff h.1).mp hg)

theorem Distinct.of_mem (h : Distinct (.arr items)) (hm : v ∈ items) : Distinct v :=
  distinctItems_iff.mp h v hm

variable (key) in
theorem Dict.get_of_canonical (hd : Distinct (.obj d)) (he : Distinct (.obj e))
    (h : Json.canonical (.obj d) = Json.canonical (.obj e)) :
    (d.get key).map Json.canonical = (e.get key).map Json.canonical := by
  rw [← get_canonical hd.1, ← get_canonical he.1]
  exact congrArg (Dict.get · key) (Json.obj.inj h)

theorem Dict.get_eq_some_of_canonical (hd : Distinct (.obj d)) (he : Distinct (.obj e))
    (h : Json.canonical (.obj d) = Json.canonical (.obj e)) (hg : e.get key = some v) :
    ∃ w, d.get key = some w ∧ Json.canonical w = Json.canonical v := by
  have hm := get_of_canonical key hd he h
  rw [hg, Option.map_some] at hm
  exact Option.map_eq_some_iff.mp hm

theorem Dict.get_str_of_canonical (key : String) (hd : Distinct (.obj d)) (he : Distinct (.obj e))
    (h : Json.canonical (.obj d) = Json.canonical (.obj e)) (hg : e.get key = some (.str s)) :
    d.get key = some (.str s) := by
  obtain ⟨w, hw, hc⟩ := get_eq_some_of_canonical hd he h hg
  rw [hw, canonical_eq_str_iff.mp hc]

theorem Dict.get_num_of_canonical (key : String) (hd : Distinct (.obj d)) (he : Distinct (.obj e))
    (h : Json.canonical (.obj d) = Json.canonical (.obj e)) (hg : e.get key = some (.num n)) :
    d.get key = some (.num n) := by
  obtain ⟨w, hw, hc⟩ := get_eq_some_of_canonical hd he h hg
  rw [hw, canonical_eq_num_iff.mp hc]

theorem Dict.get_arr_of_canonical (key : String) (hd : Distinct (.obj d)) (he : Distinct (.obj e))
    (h : Json.canonical (.obj d) = Json.canonical (.obj e)) (hg : e.get key = some (.arr items)) :
    ∃ items', d.get key = some (.arr items') ∧ items'.map Json.canonical = items.map Json.canonical := by
  obtain ⟨w, hw, hc⟩ := get_eq_some_of_canonical hd he h hg
  obtain ⟨items', rfl, hi⟩ := canonical_eq_arr hc
  exact ⟨items', hw, hi⟩

theorem Dict.get_erase_of_ne {key' : String} (h : key ≠ key') : (d.erase key').get key = d.get key := by
  rw [Dict.get, Dict.get, Dict.erase, List.find?_filter]
  congr 2
  funext f
  by_cases hf : f.fst = key
  case pos => simp [hf, h]
  case neg => simp [hf]

theorem Distinct.erase (h : Distinct (.obj d)) : Distinct (.obj (d.erase key)) :=
  ⟨h.1.sublist (List.filter_sublist.map _),
    distinctFields_iff.mpr fun f hf => distinctFields_iff.mp h.2 f (List.mem_filter.mp hf).1⟩

end Inversion
end Json
