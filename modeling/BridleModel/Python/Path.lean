import Mathlib.Data.List.DropRight
import Mathlib.Data.List.Induction

namespace Python

section NormPath

-- One turn of the loop of `posixpath.normpath`, on a path that is absolute or not.
def pushComponent (absolute : Bool) (comps : List (List Char)) (comp : List Char) :
    List (List Char) :=
  if comp = [] ∨ comp = ['.'] then
    comps
  else if comp ≠ ['.', '.'] ∨ (¬absolute ∧ comps = []) ∨ comps.getLast? = some ['.', '.'] then
    comps ++ [comp]
  else
    comps.dropLast

def initialSlashes : List Char → Nat
  | '/' :: '/' :: '/' :: _ => 1
  | '/' :: '/' :: _        => 2
  | '/' :: _               => 1
  | _                      => 0

-- The text of a relative path with these components.
def renderPath (comps : List (List Char)) : List Char :=
  if comps = [] then ['.'] else ['/'].intercalate comps

-- `posixpath.normpath`
def normpath (path : List Char) : List Char :=
  let slashes := initialSlashes path
  let comps := (path.splitOn '/').foldl (pushComponent (slashes ≠ 0)) []
  if slashes = 0 then
    renderPath comps
  else
    List.replicate slashes '/' ++ ['/'].intercalate comps

example : String.ofList (normpath "a//b/./../c/".toList) = "a/c" := by decide

end NormPath

section Join

-- `posixpath.dirname`
def dirname (path : List Char) : List Char :=
  let head := path.rdropWhile (· ≠ '/')
  if head.all (· = '/') then head else head.rdropWhile (· = '/')

-- `posixpath.join` of two parts
def join (path part : List Char) : List Char :=
  if part.head? = some '/' then part
  else if path = [] ∨ path.getLast? = some '/' then path ++ part
  else path ++ '/' :: part

end Join

section Components

variable {path comp comp' : List Char} {comps comps' : List (List Char)} {absolute : Bool} {a : Char}

theorem not_mem_splitOn : ∀ l ∈ path.splitOn a, a ∉ l := by
  induction path with
  | nil          => simp
  | cons c cs hi =>
    rw [List.splitOn_cons_eq_if_modifyHead]
    split
    case isTrue => simpa using hi
    case isFalse hc =>
      cases hs : cs.splitOn a with
      | nil       => exact absurd hs (List.splitOn_ne_nil a cs)
      | cons l ls =>
        rw [hs] at hi
        intro l' hl
        cases List.mem_cons.mp hl with
        | inl hl =>
          subst hl
          simpa [Ne.symm (by simpa using hc : c ≠ a)] using hi l List.mem_cons_self
        | inr hl => exact hi l' (List.mem_cons_of_mem _ hl)

-- A component that is a name and may stand anywhere in a path.
structure Name (comp : List Char) : Prop where
  nonempty : comp ≠ []
  current  : comp ≠ ['.']
  parent   : comp ≠ ['.', '.']
  slash    : '/' ∉ comp

-- What the loop keeps: a component `..` is preceded by such components only.
structure Pushed (comps : List (List Char)) : Prop where
  name : ∀ comp ∈ comps, comp ≠ ['.', '.'] → Name comp
  head : ['.', '.'] ∈ comps → comps.head? = some ['.', '.']

theorem Pushed.push (h : Pushed comps) (hc : '/' ∉ comp) : Pushed (pushComponent absolute comps comp) := by
  unfold pushComponent
  split
  case isTrue => exact h
  case isFalse hn =>
    have hn := not_or.mp hn
    split
    case isTrue hp =>
      constructor
      case name =>
        intro c hm hne
        cases List.mem_append.mp hm with
        | inl hm => exact h.name c hm hne
        | inr hm =>
          cases List.mem_singleton.mp hm
          exact ⟨hn.left, hn.right, hne, hc⟩
      case head =>
        intro hm
        cases comps with
        | nil       => simpa [eq_comm] using hm
        | cons d ds =>
          refine h.head ?_
          cases List.mem_append.mp hm with
          | inl hm => exact hm
          | inr hm =>
            cases List.mem_singleton.mp hm
            have hl : (d :: ds).getLast? = some ['.', '.'] := by simpa using hp
            exact List.mem_of_getLast? hl
    case isFalse =>
      constructor
      case name => exact fun c hm => h.name c ((List.dropLast_sublist _).mem hm)
      case head =>
        intro hm
        have hh := h.head ((List.dropLast_sublist _).mem hm)
        cases comps with
        | nil       => cases hm
        | cons d ds =>
          cases ds with
          | nil      => cases hm
          | cons _ _ => exact hh

theorem pushed_foldl (h : Pushed comps) (hc : ∀ comp ∈ comps', '/' ∉ comp) :
    Pushed (comps'.foldl (pushComponent absolute) comps) := by
  induction comps' generalizing comps with
  | nil       => exact h
  | cons _ _ hi =>
    exact hi (h.push (hc _ List.mem_cons_self)) fun c hm => hc c (List.mem_cons_of_mem _ hm)

theorem pushed_splitOn : Pushed ((path.splitOn '/').foldl (pushComponent absolute) []) :=
  pushed_foldl ⟨nofun, nofun⟩ not_mem_splitOn

-- A path of names is normal.
theorem foldl_names (h : ∀ comp ∈ comps', Name comp) :
    comps'.foldl (pushComponent absolute) comps = comps ++ comps' := by
  induction comps' generalizing comps with
  | nil          => simp
  | cons c cs hi =>
    have hc : Name c := h c List.mem_cons_self
    have hp : pushComponent absolute comps c = comps ++ [c] := by
      simp [pushComponent, hc.nonempty, hc.current, hc.parent]
    rw [List.foldl_cons, hp, hi fun d hd => h d (List.mem_cons_of_mem _ hd)]
    simp

theorem Pushed.names (h : Pushed comps) (hh : comps.head? ≠ some ['.', '.']) :
    ∀ comp ∈ comps, Name comp :=
  fun c hc => h.name c hc fun he => hh <| h.head (he ▸ hc)

theorem splitOn_render (h : ∀ comp ∈ comps, Name comp) (hne : comps ≠ []) :
    (['/'].intercalate comps).splitOn '/' = comps :=
  List.splitOn_intercalate '/' (fun c hc => (h c hc).slash) hne

theorem renderPath_head (h : comps.head? = some ['.', '.']) :
    renderPath comps = ['.', '.'] ∨ ['.', '.', '/'] <+: renderPath comps := by
  cases comps with
  | nil       => cases h
  | cons c cs =>
    cases h
    cases cs with
    | nil      => exact .inl rfl
    | cons d ds =>
      right
      simp [renderPath]

theorem initialSlashes_eq_zero (h : ¬['/'] <+: normpath path) : initialSlashes path = 0 := by
  cases hs : initialSlashes path with
  | zero   => rfl
  | succ n =>
    refine absurd ?_ h
    simp [normpath, hs, List.replicate_succ]

-- A normal path that stays inside consists of names.
theorem normpath_names (slash : ¬['/'] <+: normpath path) (outside : normpath path ≠ ['.', '.'])
    (above : ¬['.', '.', '/'] <+: normpath path) :
    ∃ comps, (∀ comp ∈ comps, Name comp) ∧ normpath path = renderPath comps := by
  have hs := initialSlashes_eq_zero slash
  have hn : normpath path = renderPath ((path.splitOn '/').foldl (pushComponent false) []) := by
    simp [normpath, hs]
  refine ⟨_, pushed_splitOn.names fun hh => ?_, hn⟩
  cases renderPath_head hh with
  | inl h => exact outside (hn.trans h)
  | inr h => exact above (hn ▸ h)

theorem Name.cons (h : Name comp) : ∃ c cs, comp = c :: cs ∧ c ≠ '/' := by
  cases comp with
  | nil       => exact absurd rfl h.nonempty
  | cons c cs => exact ⟨c, cs, rfl, fun he => h.slash (he ▸ List.mem_cons_self)⟩

theorem initialSlashes_cons {c : Char} {cs : List Char} (h : c ≠ '/') : initialSlashes (c :: cs) = 0 := by
  unfold initialSlashes
  split <;> simp_all

theorem normpath_render (h : ∀ comp ∈ comps, Name comp) : normpath (renderPath comps) = renderPath comps := by
  cases comps with
  | nil       => decide
  | cons c cs =>
    have hs : initialSlashes (renderPath (c :: cs)) = 0 := by
      have ⟨x, xs, hx, hne⟩ := (h c List.mem_cons_self).cons
      subst hx
      simp [renderPath, initialSlashes_cons hne]
    have hr : renderPath (c :: cs) = ['/'].intercalate (c :: cs) := rfl
    simp only [normpath, hs]
    rw [hr, splitOn_render h (by simp), foldl_names h]
    rfl

theorem render_ne_dot {c : List Char} {cs : List (List Char)} (h : ∀ comp ∈ c :: cs, Name comp) :
    renderPath (c :: cs) ≠ ['.'] := by
  intro he
  have hs := splitOn_render h (by simp)
  rw [show ['/'].intercalate (c :: cs) = ['.'] from he] at hs
  cases hs
  exact (h ['.'] List.mem_cons_self).current rfl

theorem renderPath_injective (h : ∀ comp ∈ comps, Name comp) (h' : ∀ comp ∈ comps', Name comp)
    (he : renderPath comps = renderPath comps') : comps = comps' := by
  cases comps with
  | nil =>
    cases comps' with
    | nil      => rfl
    | cons _ _ => exact absurd he.symm (render_ne_dot h')
  | cons c cs =>
    cases comps' with
    | nil      => exact absurd he (render_ne_dot h)
    | cons _ _ =>
      have hs := splitOn_render h (by simp)
      rw [show ['/'].intercalate (c :: cs) = ['/'].intercalate _ from he, splitOn_render h' (by simp)] at hs
      exact hs.symm

theorem intercalate_append {c d : List Char} {cs ds : List (List Char)} :
    ['/'].intercalate (c :: cs ++ d :: ds) = ['/'].intercalate (c :: cs) ++ '/' :: ['/'].intercalate (d :: ds) := by
  induction cs generalizing c with
  | nil           => simp
  | cons e es hi =>
    have hi := hi (c := e)
    simp only [List.cons_append, List.intercalate_cons_cons, List.append_assoc] at hi ⊢
    rw [hi]

theorem mem_of_mem_splitOn {c : Char} : ∀ l ∈ path.splitOn a, c ∈ l → c ∈ path := by
  induction path with
  | nil          => simp
  | cons d cs hi =>
    rw [List.splitOn_cons_eq_if_modifyHead]
    split
    case isTrue =>
      intro l hl hc
      cases List.mem_cons.mp hl with
      | inl hl => simp [hl] at hc
      | inr hl => exact List.mem_cons_of_mem _ (hi l hl hc)
    case isFalse =>
      cases hs : cs.splitOn a with
      | nil       => exact absurd hs (List.splitOn_ne_nil a cs)
      | cons l ls =>
        rw [hs] at hi
        intro l' hl hc
        cases List.mem_cons.mp hl with
        | inr hl => exact List.mem_cons_of_mem _ (hi l' (List.mem_cons_of_mem _ hl) hc)
        | inl hl =>
          subst hl
          cases List.mem_cons.mp hc with
          | inl hc => exact hc ▸ List.mem_cons_self
          | inr hc => exact List.mem_cons_of_mem _ (hi l List.mem_cons_self hc)

theorem mem_of_mem_push (h : comp ∈ pushComponent absolute comps comp') : comp ∈ comps ∨ comp = comp' := by
  unfold pushComponent at h
  split at h
  case isTrue => exact .inl h
  case isFalse =>
    split at h
    case isTrue => simpa using h
    case isFalse => exact .inl ((List.dropLast_sublist _).mem h)

theorem mem_of_mem_foldl (h : comp ∈ comps'.foldl (pushComponent absolute) comps) :
    comp ∈ comps ∨ comp ∈ comps' := by
  induction comps' generalizing comps with
  | nil          => exact .inl h
  | cons d ds hi =>
    cases hi h with
    | inr h => exact .inr (List.mem_cons_of_mem _ h)
    | inl h =>
      cases mem_of_mem_push h with
      | inl h => exact .inl h
      | inr h => exact .inr (h ▸ List.mem_cons_self)

theorem mem_of_mem_intercalate {c : Char} (h : c ∈ ['/'].intercalate comps) :
    c = '/' ∨ ∃ comp ∈ comps, c ∈ comp := by
  induction comps with
  | nil          => cases h
  | cons d ds hi =>
    cases ds with
    | nil      => exact .inr ⟨d, List.mem_cons_self, by simpa using h⟩
    | cons e es =>
      rw [List.intercalate_cons_cons] at h
      cases List.mem_append.mp h with
      | inl h =>
        cases List.mem_append.mp h with
        | inl h => exact .inr ⟨d, List.mem_cons_self, h⟩
        | inr h => exact .inl (List.mem_singleton.mp h)
      | inr h =>
        cases hi h with
        | inl h => exact .inl h
        | inr h =>
          have ⟨comp, hm, hc⟩ := h
          exact .inr ⟨comp, List.mem_cons_of_mem _ hm, hc⟩

-- A normal path has no other characters than the path, `/` and `.`.
theorem mem_of_mem_normpath {c : Char} (h : c ∈ normpath path) : c ∈ path ∨ c = '/' ∨ c = '.' := by
  have hi {absolute : Bool} (h : c ∈ ['/'].intercalate ((path.splitOn '/').foldl (pushComponent absolute) [])) :
      c ∈ path ∨ c = '/' ∨ c = '.' := by
    cases mem_of_mem_intercalate h with
    | inl h => exact .inr (.inl h)
    | inr h =>
      have ⟨comp, hm, hc⟩ := h
      cases mem_of_mem_foldl hm with
      | inl hm => cases hm
      | inr hm => exact .inl (mem_of_mem_splitOn comp hm hc)
  unfold normpath at h
  simp only at h
  split at h
  case isTrue =>
    unfold renderPath at h
    split at h
    case isTrue  => exact .inr (.inr (List.mem_singleton.mp h))
    case isFalse => exact hi h
  case isFalse =>
    cases List.mem_append.mp h with
    | inl h => exact .inr (.inl (List.eq_of_mem_replicate h))
    | inr h => exact hi h

theorem rdropWhile_render (h : ∀ comp ∈ comps, Name comp) :
    (renderPath comps).rdropWhile (· = '/') = renderPath comps := by
  refine List.rdropWhile_eq_self_iff.mpr fun hl hs => ?_
  have hs : (renderPath comps).getLast hl = '/' := by simpa using hs
  have he := List.dropLast_concat_getLast hl
  rw [hs] at he
  cases comps with
  | nil => simp [renderPath] at hs
  | cons c cs =>
    have hr := splitOn_render h (by simp)
    rw [show ['/'].intercalate (c :: cs) = _ from he.symm, List.splitOn_append_cons_self] at hr
    have hm : [] ∈ c :: cs := hr ▸ List.mem_append_right _ (by simp)
    exact (h [] hm).nonempty rfl

-- The test of the rendered texts is the test of the components.
theorem prefix_iff (h : ∀ comp ∈ comps, Name comp) (h' : ∀ comp ∈ comps', Name comp)
    (hne : comps ≠ []) : (renderPath comps' = renderPath comps ∨
      renderPath comps ++ ['/'] <+: renderPath comps') ↔ comps <+: comps' := by
  have hr : renderPath comps = ['/'].intercalate comps := if_neg hne
  constructor
  case mp =>
    rintro (he | ⟨rest, he⟩)
    · exact renderPath_injective h' h he ▸ List.prefix_rfl
    · cases comps' with
      | nil =>
        have he : renderPath comps ++ ['/'] ++ rest = ['.'] := he
        cases hp : renderPath comps with
        | nil      => simp [hp] at he
        | cons _ _ => simp [hp] at he
      | cons c cs =>
        refine ⟨rest.splitOn '/', ?_⟩
        have hs := splitOn_render h' (by simp)
        rw [← hs, ← show renderPath (c :: cs) = _ from if_neg (by simp), ← he, hr, List.append_assoc,
          List.singleton_append, List.splitOn_append_cons_self, splitOn_render h hne]
  case mpr =>
    rintro ⟨rest, rfl⟩
    cases rest with
    | nil       => exact .inl (by rw [List.append_nil])
    | cons d ds =>
      right
      cases comps with
      | nil       => contradiction
      | cons c cs =>
        refine ⟨['/'].intercalate (d :: ds), ?_⟩
        rw [hr, List.append_assoc, List.singleton_append, ← intercalate_append]
        rfl

theorem intercalate_concat (h : comps ≠ []) :
    ['/'].intercalate (comps ++ [comp]) = ['/'].intercalate comps ++ '/' :: comp := by
  obtain ⟨c, cs, rfl⟩ := List.exists_cons_of_ne_nil h
  rw [intercalate_append, List.intercalate_singleton]

theorem intercalate_ne_nil (h : ∀ comp ∈ comps, Name comp) (hne : comps ≠ []) : ['/'].intercalate comps ≠ [] := by
  intro he
  have hs := splitOn_render h hne
  rw [he] at hs
  exact (h [] (hs ▸ List.mem_singleton_self _)).nonempty rfl

theorem getLast?_intercalate (h : ∀ comp ∈ comps, Name comp) : (['/'].intercalate comps).getLast? ≠ some '/' := by
  intro hl
  cases comps with
  | nil       => simp at hl
  | cons c cs =>
    have hr := rdropWhile_render h
    have hne := intercalate_ne_nil h (by simp)
    rw [show renderPath (c :: cs) = ['/'].intercalate (c :: cs) from rfl, List.rdropWhile_eq_self_iff] at hr
    exact hr hne (decide_eq_true (Option.some.inj ((List.getLast?_eq_some_getLast hne).symm.trans hl)))

theorem join_name (h : ∀ comp ∈ comps, Name comp) (hc : Name comp) :
    join (['/'].intercalate comps) comp = ['/'].intercalate (comps ++ [comp]) := by
  obtain ⟨c, cs, rfl, hne⟩ := hc.cons
  rw [join, if_neg (by simpa using hne)]
  by_cases he : comps = []
  case pos =>
    subst he
    rw [List.intercalate_nil, if_pos (.inl rfl), List.nil_append, List.nil_append, List.intercalate_singleton]
  case neg =>
    rw [if_neg (not_or.mpr ⟨intercalate_ne_nil h he, getLast?_intercalate h⟩), intercalate_concat he]

theorem foldl_join (h : ∀ comp ∈ comps, Name comp) (h' : ∀ comp ∈ comps', Name comp) :
    comps'.foldl join (['/'].intercalate comps) = ['/'].intercalate (comps ++ comps') := by
  induction comps' generalizing comps with
  | nil          => rw [List.foldl_nil, List.append_nil]
  | cons c cs hi =>
    have hc := h' c List.mem_cons_self
    have hm : ∀ comp ∈ comps ++ [c], Name comp := by
      intro d hd
      cases List.mem_append.mp hd with
      | inl hd => exact h d hd
      | inr hd => exact List.mem_singleton.mp hd ▸ hc
    rw [List.foldl_cons, join_name h hc, hi hm fun d hd => h' d (List.mem_cons_of_mem _ hd), List.append_assoc]
    rfl

theorem rdropWhile_append_of_pos {p : Char → Bool} {head tail : List Char} (h : ∀ c ∈ tail, p c) :
    (head ++ tail).rdropWhile p = head.rdropWhile p := by
  rw [List.rdropWhile, List.reverse_append,
    List.dropWhile_append_of_pos fun c hc => h c (List.mem_reverse.mp hc), List.rdropWhile]

theorem dirname_concat (h : ∀ comp ∈ comps, Name comp) (hc : Name comp) :
    dirname (['/'].intercalate (comps ++ [comp])) = ['/'].intercalate comps := by
  have hs : ∀ c ∈ comp, decide (c ≠ '/') = true := fun c hm => decide_eq_true fun he => hc.slash (he ▸ hm)
  by_cases he : comps = []
  case pos =>
    subst he
    rw [List.nil_append, List.intercalate_singleton, dirname, List.rdropWhile_eq_nil_iff.mpr hs]
    rfl
  case neg =>
    have hne := intercalate_ne_nil h he
    have hl := getLast?_intercalate h
    have head : (['/'].intercalate comps ++ '/' :: comp).rdropWhile (· ≠ '/') = ['/'].intercalate comps ++ ['/'] := by
      rw [List.append_cons, rdropWhile_append_of_pos hs]
      exact List.rdropWhile_concat_neg _ _ _ (by simp)
    have last : (['/'].intercalate comps).getLast hne ≠ '/' := fun e =>
      hl ((List.getLast?_eq_some_getLast hne).trans (congrArg some e))
    rw [intercalate_concat he, dirname, head, if_neg]
    · rw [List.rdropWhile_concat_pos _ _ _ (by simp), List.rdropWhile_eq_self_iff]
      exact fun _ => by simpa using last
    · intro hall
      exact last (by simpa using List.all_eq_true.mp hall _ (List.mem_append_left _ (List.getLast_mem hne)))

end Components
end Python
