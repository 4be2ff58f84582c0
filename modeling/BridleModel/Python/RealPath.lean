import Mathlib.Data.List.Nodup
import Mathlib.Data.List.Perm.Subperm
import Mathlib.Data.List.DropRight

-- `posixpath.realpath` over a tree with symbolic links. A location is the list of the names from the root on.
namespace Python

abbrev Location :=
  List (List Char)

-- The symbolic links of a tree with the texts that they hold
abbrev Links :=
  List (Location × List Char)

-- The names of a path; the empty ones and the dots say nothing.
def pathNames (path : List Char) : List (List Char) :=
  (path.splitOn '/').filter fun name => name ≠ [] ∧ name ≠ ['.']

section

variable (readlink : Location → Option (List Char))

-- The loop of `_joinrealpath`; `follow` is the call for a link that is open now, and `none` a loop of links.
def joinRealpathWith (follow : Location → Location → List (List Char) → Option Location) :
    Location → List (List Char) → Option Location
  | path, []           => some path
  | path, name :: rest =>
    if name = ['.', '.'] then
      joinRealpathWith follow path.dropLast rest
    else
      match readlink (path ++ [name]) with
      | none        => joinRealpathWith follow (path ++ [name]) rest
      | some target =>
        (follow (path ++ [name]) (if target.head? = some '/' then [] else path) (pathNames target)).bind
          (joinRealpathWith follow · rest)

-- `_joinrealpath` with the links in `seen` open. A link that is closed again is resolved once more, which gives what
-- the source has kept in its dict.
def joinRealpath : Nat → List Location → Location → List (List Char) → Option Location
  | 0, _        => joinRealpathWith readlink fun _ _ _ => none
  | fuel + 1, seen =>
    joinRealpathWith readlink fun newpath path rest =>
      if newpath ∈ seen then none else joinRealpath fuel (newpath :: seen) path rest

end

section Fuel

variable {readlink : Location → Option (List Char)} {links : List Location} {seen : List Location}
variable {follow follow' : Location → Location → List (List Char) → Option Location} {path : Location}
variable {names : List (List Char)}

theorem joinRealpathWith_congr
    (h : ∀ newpath target path names, readlink newpath = some target →
      follow newpath path names = follow' newpath path names) :
    joinRealpathWith readlink follow path names = joinRealpathWith readlink follow' path names := by
  induction names generalizing path
  case nil               => rfl
  case cons name rest hi =>
    rw [joinRealpathWith, joinRealpathWith]
    split
    case isTrue  => exact hi
    case isFalse =>
      split
      case h_1    => exact hi
      case h_2 hr =>
        rw [h _ _ _ _ hr]
        congr
        funext path
        exact hi

theorem length_lt_of_open (nodup : seen.Nodup) (sub : seen ⊆ links) {newpath : Location} (hm : newpath ∈ links)
    (hn : newpath ∉ seen) : seen.length < links.length :=
  (nodup.cons hn).subperm (List.cons_subset.mpr ⟨hm, sub⟩) |>.length_le

-- With all links open, the next one is open twice.
theorem mem_of_length_le (nodup : seen.Nodup) (sub : seen ⊆ links) (h : links.length ≤ seen.length)
    {newpath : Location} (hm : newpath ∈ links) : newpath ∈ seen :=
  Decidable.byContradiction fun hn => absurd (length_lt_of_open nodup sub hm hn) (Nat.not_lt.mpr h)

-- As much fuel as there are links that are not open is enough.
theorem joinRealpath_fuel {fuel fuel' : Nat} (hl : ∀ newpath target, readlink newpath = some target → newpath ∈ links)
    (nodup : seen.Nodup) (sub : seen ⊆ links) (h : links.length ≤ fuel + seen.length)
    (h' : links.length ≤ fuel' + seen.length) :
    joinRealpath readlink fuel seen path names = joinRealpath readlink fuel' seen path names := by
  induction fuel generalizing fuel' seen path names
  case zero          =>
    cases fuel' with
    | zero        => rfl
    | succ fuel'  =>
      refine joinRealpathWith_congr fun newpath target path names hr => ?_
      rw [if_pos (mem_of_length_le nodup sub (by omega) (hl _ _ hr))]
  case succ fuel hi =>
    cases fuel' with
    | zero       =>
      refine joinRealpathWith_congr fun newpath target path names hr => ?_
      rw [if_pos (mem_of_length_le nodup sub (by omega) (hl _ _ hr))]
    | succ fuel' =>
      refine joinRealpathWith_congr fun newpath target path names hr => ?_
      by_cases hs : newpath ∈ seen
      case pos => rw [if_pos hs, if_pos hs]
      case neg =>
        rw [if_neg hs, if_neg hs]
        have hsub : newpath :: seen ⊆ links := List.cons_subset.mpr ⟨hl _ _ hr, sub⟩
        exact hi (nodup.cons hs) hsub (by simp; omega) (by simp; omega)

end Fuel

section Resolve

inductive ResolveError
  | symlinkLoop
  | embeddedNull
deriving DecidableEq, Repr

-- `Path.resolve()` of an absolute path, with `RuntimeError` and `ValueError`
def resolve (readlink : Location → Option (List Char)) (links : Nat) (path : List (List Char)) :
    Except ResolveError Location :=
  if path.any (·.contains '\x00') then .error .embeddedNull
  else
    match joinRealpath readlink links [] [] path with
    | none          => .error .symlinkLoop
    | some location => .ok location

end Resolve

end Python
