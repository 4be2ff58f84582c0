import BridleModel.CodeMap.Imports

open Python

namespace CodeMap

-- What a lookup in the order of its candidates finds.
section Lookup

variable {found denoted wrong rest files : List (List Char)} {relative : Prop} {resolved : Option (List Char)}

-- What is found is denoted, and a relative specifier finds a file when it denotes one.
structure Faithful (resolved : Option (List Char)) (denoted files : List (List Char)) (relative : Prop) : Prop where
  sound    : ∀ path, resolved = some path → path ∈ denoted
  complete : relative → ∀ path ∈ denoted, path ∈ files → ∃ path' ∈ denoted, resolved = some path'

theorem faithful_none_iff : Faithful none denoted files relative ↔ relative → ∀ path ∈ denoted, path ∉ files := by
  constructor
  · intro h hr path hd hf
    obtain ⟨path', -, hn⟩ := h.complete hr path hd hf
    exact absurd hn (by simp)
  · exact fun h => ⟨nofun, fun hr path hd hf => absurd hf (h hr path hd)⟩

-- Candidates that are not denoted
theorem faithful_disjoint_iff (h : ∀ path ∈ wrong, path ∉ denoted) :
    Faithful (wrong.find? (· ∈ files)) denoted files relative ↔
      (∀ path ∈ wrong, path ∉ files) ∧ (relative → ∀ path ∈ denoted, path ∉ files) := by
  cases hf : wrong.find? (· ∈ files) with
  | none      =>
    rw [faithful_none_iff]
    refine (and_iff_right fun path hp => ?_).symm
    simpa using List.find?_eq_none.mp hf path hp
  | some path =>
    have hm := List.mem_of_find?_eq_some hf
    have hi : path ∈ files := by simpa using List.find?_some hf
    exact iff_of_false (fun hx => h path hm (hx.sound path rfl)) fun hx => hx.1 path hm hi

-- The denoted files, in their order, after candidates that are not denoted
theorem faithful_append_iff (h : ∀ path ∈ wrong, path ∉ denoted) :
    Faithful ((wrong ++ denoted).find? (· ∈ files)) denoted files relative ↔ ∀ path ∈ wrong, path ∉ files := by
  rw [List.find?_append]
  cases hf : wrong.find? (· ∈ files) with
  | none      =>
    rw [Option.none_or]
    refine iff_of_true ⟨fun path hp => List.mem_of_find?_eq_some hp, fun _ path hd hp => ?_⟩ fun path hp => ?_
    · have hs : (denoted.find? (· ∈ files)).isSome := List.find?_isSome.mpr ⟨path, hd, decide_eq_true hp⟩
      obtain ⟨path', hs⟩ := Option.isSome_iff_exists.mp hs
      exact ⟨path', List.mem_of_find?_eq_some hs, hs⟩
    · simpa using List.find?_eq_none.mp hf path hp
  | some path =>
    have hm := List.mem_of_find?_eq_some hf
    have hi : path ∈ files := by simpa using List.find?_some hf
    exact iff_of_false (fun hx => h path hm (hx.sound path rfl)) fun hx => hx path hm hi

theorem faithful_self : Faithful (denoted.find? (· ∈ files)) denoted files relative := by
  have nil : ∀ path ∈ ([] : List (List Char)), path ∉ denoted := by simp
  exact (faithful_append_iff nil).mpr (by simp)

-- Denoted files, and then candidates that are not denoted by what is left
theorem faithful_before_iff (hr : ¬relative) (h : ∀ path ∈ wrong, path ∉ rest) :
    Faithful ((found ++ wrong).find? (· ∈ files)) (found ++ rest) files relative ↔
      (∃ path ∈ found, path ∈ files) ∨ ∀ path ∈ wrong, path ∉ files := by
  rw [List.find?_append]
  cases hf : found.find? (· ∈ files) with
  | some path =>
    have hm := List.mem_of_find?_eq_some hf
    refine iff_of_true ⟨fun path' hp => ?_, fun hr' => absurd hr' hr⟩ (.inl ⟨path, hm, by simpa using List.find?_some hf⟩)
    rw [← Option.some.inj hp]
    exact List.mem_append_left _ hm
  | none      =>
    have hn : ∀ path ∈ found, path ∉ files := fun path hp => by simpa using List.find?_eq_none.mp hf path hp
    have hno : ¬∃ path ∈ found, path ∈ files := by
      rintro ⟨path, hp, hi⟩
      exact hn path hp hi
    rw [Option.none_or, or_iff_right hno]
    cases hw : wrong.find? (· ∈ files) with
    | none      =>
      exact iff_of_true ⟨nofun, fun hr' => absurd hr' hr⟩ fun path hp => by simpa using List.find?_eq_none.mp hw path hp
    | some path =>
      have hm := List.mem_of_find?_eq_some hw
      have hi : path ∈ files := by simpa using List.find?_some hw
      refine iff_of_false (fun hx => ?_) fun hx => hx path hm hi
      cases List.mem_append.mp (hx.sound path rfl) with
      | inl hp => exact hn path hp hi
      | inr hp => exact h path hm hp

end Lookup
section Paths

variable {comps : List (List Char)} {path : List Char}

def pathText (comps : List (List Char)) : List Char :=
  ['/'].intercalate comps

-- A file of the workspace: the names of its directory and its own
structure WorkspaceFile where
  dir   : List (List Char)
  base  : List Char
  names : ∀ name ∈ dir, Name name
  named : Name base

def WorkspaceFile.text (file : WorkspaceFile) : List Char :=
  pathText (file.dir ++ [file.base])

-- The text without the dots and slashes at its start
def stripped (path : List Char) : List Char :=
  path.dropWhile (· ∈ ['.', '/'])

-- The path starts with a dot.
def Hidden (comps : List (List Char)) : Prop :=
  (pathText comps).head? = some '.'

instance : Decidable (Hidden comps) :=
  inferInstanceAs (Decidable (_ = _))

theorem stripped_head : (stripped path).head? ≠ some '.' := by
  intro h
  have hn := List.head?_dropWhile_not (fun c => decide (c ∈ ['.', '/'])) path
  rw [stripped] at h
  rw [h] at hn
  exact absurd hn (by decide)

theorem stripped_eq_self (hd : path.head? ≠ some '.') (hs : path.head? ≠ some '/') : stripped path = path := by
  cases path with
  | nil       => rfl
  | cons c cs =>
    rw [stripped, List.dropWhile_cons_of_neg]
    simpa using And.intro hd hs

theorem pathText_cons_head {comp : List Char} (hc : comp ≠ []) : (pathText (comp :: comps)).head? = comp.head? := by
  cases comps with
  | nil      => rw [pathText, List.intercalate_singleton]
  | cons _ _ =>
    rw [pathText, List.intercalate_cons_cons, List.append_assoc, List.head?_append_of_ne_nil _ hc]

theorem pathText_head (h : ∀ name ∈ comps, Name name) : (pathText comps).head? ≠ some '/' := by
  cases comps with
  | nil       => simp [pathText]
  | cons c cs =>
    obtain ⟨d, ds, rfl, hne⟩ := (h c List.mem_cons_self).cons
    rw [pathText_cons_head (by simp)]
    simpa using hne

theorem pathText_append_head {comps' : List (List Char)} (hne : pathText comps ≠ []) :
    (pathText (comps ++ comps')).head? = (pathText comps).head? := by
  cases comps with
  | nil       => exact absurd rfl hne
  | cons c cs =>
    cases comps' with
    | nil       => rw [List.append_nil]
    | cons d ds =>
      have hi : pathText (c :: cs ++ d :: ds) = pathText (c :: cs) ++ '/' :: pathText (d :: ds) := intercalate_append
      rw [hi, List.head?_append_of_ne_nil _ hne]

theorem lookupKey_pathText (h : ∀ name ∈ comps, Name name) : lookupKey (pathText comps) = stripped (pathText comps) := by
  by_cases he : comps = []
  case pos =>
    subst he
    rfl
  case neg =>
    have hr : renderPath comps = pathText comps := if_neg he
    rw [lookupKey, ← hr, normpath_render h]
    rfl

theorem dirname_text {file : WorkspaceFile} : dirname file.text = pathText file.dir :=
  dirname_concat file.names file.named

theorem iterate_dirname {n : Nat} (h : ∀ name ∈ comps, Name name) :
    dirname^[n] (pathText comps) = pathText (comps.rdrop n) := by
  induction n generalizing comps with
  | zero      => rw [Function.iterate_zero_apply, List.rdrop_zero]
  | succ n hi =>
    rw [Function.iterate_succ_apply]
    cases List.eq_nil_or_concat comps with
    | inl he =>
      have hn : dirname (pathText []) = pathText [] := rfl
      rw [he, hn, hi (by simp), List.rdrop_nil, List.rdrop_nil]
    | inr he =>
      obtain ⟨cs, c, rfl⟩ := he
      rw [List.concat_eq_append] at h ⊢
      have hcs : ∀ name ∈ cs, Name name := fun d hd => h d (List.mem_append_left _ hd)
      have hd : dirname (pathText (cs ++ [c])) = pathText cs := dirname_concat hcs (h c (by simp))
      rw [hd, hi hcs, List.rdrop_concat_succ]

end Paths
section Python

variable {file : WorkspaceFile} {files comps names : List (List Char)}

-- A dotted or relative module text, by its leading dots and the names after them
structure PythonModule where
  leading     : Nat
  names       : List (List Char)
  identifiers : ∀ name ∈ names, name ≠ [] ∧ '.' ∉ name ∧ '/' ∉ name
  given       : leading ≠ 0 ∨ names ≠ []

variable {module : PythonModule}

-- The files of the module and of the package with this path
def moduleFiles (comps : List (List Char)) : List (List Char) :=
  [pathText comps ++ pythonSuffix, pathText (comps ++ [initFile])]

namespace PythonModule

def text (module : PythonModule) : List Char :=
  List.replicate module.leading '.' ++ ['.'].intercalate module.names

-- The package that a relative import starts from, when it does not lie above the root
def package (module : PythonModule) (file : WorkspaceFile) : List (List Char) :=
  file.dir.rdrop (module.leading - 1)

def Climbs (module : PythonModule) (file : WorkspaceFile) : Prop :=
  file.dir.length < module.leading - 1

instance : Decidable (module.Climbs file) :=
  inferInstanceAs (Decidable (_ < _))

-- The files that the text denotes: of a package itself it is the `__init__` file.
def denoted (module : PythonModule) (file : WorkspaceFile) : List (List Char) :=
  if module.leading = 0 then moduleFiles module.names ++ moduleFiles (file.dir ++ module.names)
  else if module.Climbs file then []
  else if module.names = [] then [pathText (module.package file ++ [initFile])]
  else moduleFiles (module.package file ++ module.names)

end PythonModule

theorem initFile_name : Name initFile :=
  ⟨by decide, by decide, by decide, by decide⟩

theorem PythonModule.name {name : List Char} (h : name ∈ module.names) : Name name := by
  obtain ⟨hne, hd, hs⟩ := module.identifiers name h
  refine ⟨hne, ?_, ?_, hs⟩
  · rintro rfl
    exact hd (by decide)
  · rintro rfl
    exact hd (by decide)

theorem name_suffix {name : List Char} (h : Name name) : Name (name ++ pythonSuffix) := by
  have hp : 'p' ∈ name ++ pythonSuffix := List.mem_append_right _ (by decide)
  refine ⟨?_, ?_, ?_, ?_⟩
  · exact fun he => absurd (he ▸ hp) (by decide)
  · exact fun he => absurd (he ▸ hp) (by decide)
  · exact fun he => absurd (he ▸ hp) (by decide)
  · intro hm
    cases List.mem_append.mp hm with
    | inl hm => exact h.slash hm
    | inr hm => exact absurd hm (by decide)

theorem pathText_concat_append {comp suffix : List Char} :
    pathText (comps ++ [comp]) ++ suffix = pathText (comps ++ [comp ++ suffix]) := by
  by_cases he : comps = []
  case pos =>
    subst he
    simp [pathText]
  case neg =>
    rw [pathText, pathText, intercalate_concat he, intercalate_concat he, List.append_assoc]
    rfl

theorem names_concat (h : ∀ name ∈ comps, Name name) {comp : List Char} (hc : Name comp) :
    ∀ name ∈ comps ++ [comp], Name name := by
  intro d hd
  cases List.mem_append.mp hd with
  | inl hd => exact h d hd
  | inr hd => exact List.mem_singleton.mp hd ▸ hc

theorem moduleCandidates_pathText (h : ∀ name ∈ comps, Name name) :
    (moduleCandidates (pathText comps)).map lookupKey = (moduleFiles comps).map stripped := by
  have hj : join (pathText comps) initFile = pathText (comps ++ [initFile]) := join_name h initFile_name
  have hk : lookupKey (pathText comps ++ pythonSuffix) = stripped (pathText comps ++ pythonSuffix) := by
    cases List.eq_nil_or_concat comps with
    | inl he =>
      rw [he]
      decide
    | inr he =>
      obtain ⟨cs, c, rfl⟩ := he
      rw [List.concat_eq_append] at h ⊢
      have hcs : ∀ name ∈ cs, Name name := fun d hd => h d (List.mem_append_left _ hd)
      rw [pathText_concat_append]
      exact lookupKey_pathText (names_concat hcs (name_suffix (h c (by simp))))
  rw [moduleCandidates, moduleFiles, hj, List.map_cons, List.map_cons, List.map_nil, hk,
    lookupKey_pathText (names_concat h initFile_name)]
  rfl

theorem PythonModule.splitOn_names (h : module.names ≠ []) :
    (['.'].intercalate module.names).splitOn '.' = module.names :=
  List.splitOn_intercalate '.' (fun name hn => (module.identifiers name hn).2.1) h

theorem PythonModule.names_head : (['.'].intercalate module.names).head? ≠ some '.' := by
  cases hn : module.names with
  | nil       => simp
  | cons c cs =>
    obtain ⟨hne, hd, -⟩ := module.identifiers c (hn ▸ List.mem_cons_self)
    obtain ⟨d, ds, rfl⟩ := List.exists_cons_of_ne_nil hne
    have hdd : d ≠ '.' := fun he => hd (he ▸ List.mem_cons_self)
    cases cs with
    | nil      => simpa using hdd
    | cons _ _ => simpa [List.intercalate_cons_cons] using hdd

theorem PythonModule.takeWhile_text : module.text.takeWhile (· = '.') = List.replicate module.leading '.' := by
  have hn : (['.'].intercalate module.names).takeWhile (· = '.') = [] := by
    cases hc : ['.'].intercalate module.names with
    | nil       => rfl
    | cons c cs =>
      have hh : c ≠ '.' := by simpa [hc] using @names_head module
      exact List.takeWhile_cons_of_neg (by simpa using hh)
  rw [text, List.takeWhile_append_of_pos fun c hc => decide_eq_true (List.eq_of_mem_replicate hc), hn, List.append_nil]

theorem PythonModule.package_names : ∀ name ∈ module.package file, Name name :=
  fun name hn => file.names name (List.mem_of_mem_take hn)

theorem PythonModule.names_append (h : ∀ name ∈ comps, Name name) : ∀ name ∈ comps ++ module.names, Name name := by
  intro name hm
  cases List.mem_append.mp hm with
  | inl hm => exact h name hm
  | inr hm => exact PythonModule.name hm

theorem pythonCandidates_relative (h : module.leading ≠ 0) :
    pythonCandidates file.text module.text = moduleCandidates (pathText (module.package file ++ module.names)) := by
  have hh : module.text.head? = some '.' := by
    obtain ⟨n, hn⟩ := Nat.exists_eq_succ_of_ne_zero h
    rw [PythonModule.text, hn, List.replicate_succ]
    rfl
  have hd : module.text.drop module.leading = ['.'].intercalate module.names := by
    rw [PythonModule.text, List.drop_left' List.length_replicate]
  rw [pythonCandidates, if_pos hh, PythonModule.takeWhile_text, List.length_replicate]
  dsimp only
  rw [hd, dirname_text, iterate_dirname file.names]
  change moduleCandidates (if _ then List.foldl join (pathText (module.package file)) _ else
    pathText (module.package file)) = _
  by_cases hn : module.names = []
  case pos => simp [hn]
  case neg =>
    have hf : module.names.filter (· ≠ []) = module.names :=
      List.filter_eq_self.mpr fun name hm => decide_eq_true (module.identifiers name hm).1
    rw [PythonModule.splitOn_names hn, hf, if_pos hn]
    exact congrArg _ (foldl_join PythonModule.package_names fun name hm => PythonModule.name hm)

theorem pythonCandidates_absolute (h : module.leading = 0) : pythonCandidates file.text module.text =
    moduleCandidates (pathText module.names) ++ moduleCandidates (pathText (file.dir ++ module.names)) := by
  have ht : module.text = ['.'].intercalate module.names := by
    rw [PythonModule.text, h]
    rfl
  have hn : module.names ≠ [] := module.given.resolve_left (not_not.mpr h)
  have nested : (if dirname file.text ≠ [] then module.names.foldl join (dirname file.text) else pathText module.names) =
      pathText (file.dir ++ module.names) := by
    rw [dirname_text]
    by_cases hd : file.dir = []
    case pos => simp [hd, pathText]
    case neg =>
      have hne : pathText file.dir ≠ [] := intercalate_ne_nil file.names hd
      rw [if_pos hne]
      exact foldl_join file.names fun name hm => PythonModule.name hm
  rw [pythonCandidates, ht, if_neg PythonModule.names_head, PythonModule.splitOn_names hn]
  exact congrArg (moduleCandidates (pathText module.names) ++ moduleCandidates ·) nested

theorem PythonModule.text_ne_nil : module.text ≠ [] := by
  intro he
  obtain ⟨hl, hn⟩ := List.append_eq_nil_iff.mp he
  have hl : module.leading = 0 := by simpa using hl
  have hs := splitOn_names (module.given.resolve_left (not_not.mpr hl))
  rw [hn] at hs
  exact (module.identifiers [] (hs ▸ List.mem_singleton_self _)).1 rfl

theorem resolvePythonImport_relative (h : module.leading ≠ 0) : resolvePythonImport file.text module.text files =
    ((moduleFiles (module.package file ++ module.names)).map stripped).find? (· ∈ files) := by
  rw [resolvePythonImport, if_neg PythonModule.text_ne_nil, pythonCandidates_relative h, moduleCandidates_pathText]
  exact PythonModule.names_append PythonModule.package_names

theorem resolvePythonImport_absolute (h : module.leading = 0) : resolvePythonImport file.text module.text files =
    ((moduleFiles module.names).map stripped ++ (moduleFiles (file.dir ++ module.names)).map stripped).find?
      (· ∈ files) := by
  rw [resolvePythonImport, if_neg PythonModule.text_ne_nil, pythonCandidates_absolute h, List.map_append,
    moduleCandidates_pathText fun name hm => PythonModule.name hm,
    moduleCandidates_pathText (PythonModule.names_append file.names)]

theorem moduleFiles_head (hne : pathText comps ≠ []) :
    ∀ path ∈ moduleFiles comps, path.head? = (pathText comps).head? := by
  intro path hm
  rw [moduleFiles, List.mem_pair] at hm
  cases hm with
  | inl he => rw [he, List.head?_append_of_ne_nil _ hne]
  | inr he => rw [he, pathText_append_head hne]

-- No file below a path that is not hidden is taken for another one.
theorem moduleFiles_stripped (hne : comps ≠ []) (hh : ¬Hidden comps) (h : ∀ name ∈ comps, Name name) :
    (moduleFiles comps).map stripped = moduleFiles comps := by
  refine (List.map_congr_left fun path hm => ?_).trans (List.map_id _)
  have hp := moduleFiles_head (intercalate_ne_nil h hne) path hm
  exact stripped_eq_self (hp ▸ hh) (hp ▸ pathText_head h)

theorem moduleFiles_hidden (hh : Hidden comps) : ∀ path ∈ moduleFiles comps, path.head? = some '.' := by
  intro path hm
  refine (moduleFiles_head ?_ path hm).trans hh
  intro he
  exact absurd (he ▸ hh : ([] : List Char).head? = some '.') (by simp)

-- The module text reaches its files: an import does not climb above the root, its directory is not hidden and a
-- package is not hidden behind a module of its name, as long as there are files to mistake.
def PythonModule.Clear (module : PythonModule) (file : WorkspaceFile) (files : List (List Char)) : Prop :=
  if module.leading = 0 then
    Hidden file.dir → (∃ path ∈ moduleFiles module.names, path ∈ files) ∨
      ∀ path ∈ moduleFiles (file.dir ++ module.names), stripped path ∉ files
  else if module.Climbs file then
    ∀ path ∈ moduleFiles module.names, stripped path ∉ files
  else if Hidden (module.package file) then
    (∀ path ∈ moduleFiles (module.package file ++ module.names), stripped path ∉ files) ∧
      ∀ path ∈ module.denoted file, path ∉ files
  else
    module.names = [] → stripped (pathText (module.package file) ++ pythonSuffix) ∉ files

abbrev FaithfulPython (module : PythonModule) (file : WorkspaceFile) (files : List (List Char)) : Prop :=
  Faithful (resolvePythonImport file.text module.text files) (module.denoted file) files (module.leading ≠ 0)

theorem PythonModule.not_hidden_names : ¬Hidden module.names := by
  cases hn : module.names with
  | nil       => simp [Hidden, pathText]
  | cons c cs =>
    obtain ⟨hne, hd, -⟩ := module.identifiers c (hn ▸ List.mem_cons_self)
    rw [Hidden, pathText_cons_head hne]
    exact fun hh => hd (List.mem_of_mem_head? hh)

theorem hidden_append_names {comps' : List (List Char)} (h : ∀ name ∈ comps, Name name) :
    Hidden (comps ++ comps') ↔ if comps = [] then Hidden comps' else Hidden comps := by
  by_cases he : comps = []
  case pos => rw [he, List.nil_append, if_pos rfl]
  case neg => rw [if_neg he, Hidden, pathText_append_head (intercalate_ne_nil h he), Hidden]

theorem PythonModule.stripped_files (h : ∀ name ∈ comps, Name name) (hh : ¬Hidden comps)
    (hne : comps ++ module.names ≠ []) :
    (moduleFiles (comps ++ module.names)).map stripped = moduleFiles (comps ++ module.names) := by
  refine moduleFiles_stripped hne ?_ (PythonModule.names_append h)
  rw [hidden_append_names h]
  split
  · exact PythonModule.not_hidden_names
  · exact hh

-- No file below a hidden path is found for it.
theorem hidden_disjoint {paths : List (List Char)} (h : ∀ path ∈ paths, path.head? = some '.') :
    ∀ path ∈ (moduleFiles comps).map stripped, path ∉ paths := by
  intro path hm hp
  obtain ⟨path, -, rfl⟩ := List.mem_map.mp hm
  exact stripped_head (h _ hp)

theorem hidden_moduleFiles (hh : Hidden comps) {comps' : List (List Char)} :
    ∀ path ∈ moduleFiles (comps ++ comps'), path.head? = some '.' := by
  refine moduleFiles_hidden ?_
  rw [Hidden, pathText_append_head]
  · exact hh
  · intro he
    rw [Hidden, he] at hh
    exact absurd hh (by simp)

theorem stripped_initFile (hh : ¬Hidden comps) (h : ∀ name ∈ comps, Name name) :
    stripped (pathText (comps ++ [initFile])) = pathText (comps ++ [initFile]) := by
  have hp : ¬Hidden (comps ++ [initFile]) := by
    rw [hidden_append_names h]
    split
    · exact fun he => absurd he (by decide)
    · exact hh
  exact stripped_eq_self hp (pathText_head (names_concat h initFile_name))

-- A module beside a package and the file of the package
theorem moduleFile_ne_initFile (hh : ¬Hidden comps) (h : ∀ name ∈ comps, Name name) :
    ∀ path ∈ [stripped (pathText comps ++ pythonSuffix)], path ∉ [pathText (comps ++ [initFile])] := by
  intro path hm
  rw [List.mem_singleton] at hm ⊢
  subst hm
  by_cases he : comps = []
  case pos =>
    subst he
    decide
  case neg =>
    have hne : pathText comps ≠ [] := intercalate_ne_nil h he
    have hd : (pathText comps ++ pythonSuffix).head? ≠ some '.' := by
      rw [List.head?_append_of_ne_nil _ hne]
      exact hh
    have hs : (pathText comps ++ pythonSuffix).head? ≠ some '/' := by
      rw [List.head?_append_of_ne_nil _ hne]
      exact pathText_head h
    rw [stripped_eq_self hd hs, pathText, pathText, intercalate_concat he]
    exact fun hc => absurd (List.append_cancel_left hc) (by decide)

theorem faithful_absolute_iff (h : module.leading = 0) : FaithfulPython module file files ↔ module.Clear file files := by
  have hd : module.denoted file = moduleFiles module.names ++ moduleFiles (file.dir ++ module.names) := if_pos h
  have hn : module.names ≠ [] := module.given.resolve_left (not_not.mpr h)
  have root : (moduleFiles module.names).map stripped = moduleFiles module.names :=
    @PythonModule.stripped_files [] module (by simp) (by simp [Hidden, pathText]) hn
  rw [FaithfulPython, resolvePythonImport_absolute h, hd, root, PythonModule.Clear, if_pos h]
  by_cases hh : Hidden file.dir
  case pos =>
    rw [faithful_before_iff (not_not.mpr h) (hidden_disjoint (hidden_moduleFiles hh)), forall_prop_of_true hh]
    simp only [List.mem_map, forall_exists_index, and_imp, forall_apply_eq_imp_iff₂]
  case neg =>
    refine iff_of_true ?_ fun h => absurd h hh
    rw [PythonModule.stripped_files file.names hh (by simp [hn])]
    exact faithful_self

theorem faithful_relative_iff (h : module.leading ≠ 0) : FaithfulPython module file files ↔ module.Clear file files := by
  rw [FaithfulPython, resolvePythonImport_relative h, PythonModule.Clear, if_neg h]
  by_cases hc : module.Climbs file
  case pos =>
    have hp : module.package file = [] := by
      rw [PythonModule.package, List.rdrop, Nat.sub_eq_zero_of_le (Nat.le_of_lt hc), List.take_zero]
    have hd : module.denoted file = [] := by rw [PythonModule.denoted, if_neg h, if_pos hc]
    rw [if_pos hc, hp, hd, List.nil_append, faithful_disjoint_iff (by simp)]
    simp
  case neg =>
    rw [if_neg hc]
    have hd : module.denoted file = if module.names = [] then [pathText (module.package file ++ [initFile])]
        else moduleFiles (module.package file ++ module.names) := by
      rw [PythonModule.denoted, if_neg h, if_neg hc]
    by_cases hh : Hidden (module.package file)
    case pos =>
      have hidden : ∀ path ∈ module.denoted file, path.head? = some '.' := by
        rw [hd]
        split
        case isTrue hn =>
          intro path hm
          rw [List.mem_singleton.mp hm]
          exact moduleFiles_hidden hh _ (List.mem_cons_of_mem _ List.mem_cons_self)
        case isFalse => exact hidden_moduleFiles hh
      rw [if_pos hh, faithful_disjoint_iff (hidden_disjoint hidden), forall_prop_of_true h]
      simp only [List.mem_map, forall_exists_index, and_imp, forall_apply_eq_imp_iff₂]
    case neg =>
      rw [if_neg hh]
      by_cases hn : module.names = []
      case pos =>
        have hfiles : (moduleFiles (module.package file ++ module.names)).map stripped =
            [stripped (pathText (module.package file) ++ pythonSuffix)] ++ [pathText (module.package file ++ [initFile])] := by
          rw [hn, List.append_nil, moduleFiles, List.map_cons, List.map_cons, List.map_nil, stripped_initFile hh
            PythonModule.package_names]
          rfl
        rw [hd, if_pos hn, hfiles, faithful_append_iff (moduleFile_ne_initFile hh PythonModule.package_names)]
        simp [hn]
      case neg =>
        rw [hd, if_neg hn, PythonModule.stripped_files PythonModule.package_names hh (by simp [hn])]
        exact iff_of_true faithful_self fun he => absurd he hn

end Python
section TypeScript

variable {file : WorkspaceFile} {files comps segments : List (List Char)} {segment specifier : List Char}

-- A path on the way along a specifier, and how often it has left the root upwards
structure Place where
  above : Nat
  comps : List (List Char)

namespace Place

def step (place : Place) (segment : List Char) : Place :=
  if segment = [] ∨ segment = ['.'] then place
  else if segment = ['.', '.'] then
    if place.comps = [] then { place with above := place.above + 1 }
    else { place with comps := place.comps.dropLast }
  else { place with comps := place.comps ++ [segment] }

variable {place : Place}

theorem step_names (h : ∀ name ∈ place.comps, Name name) (hs : '/' ∉ segment) :
    ∀ name ∈ (place.step segment).comps, Name name := by
  rw [step]
  split
  case isTrue => exact h
  case isFalse hn =>
    have hn := not_or.mp hn
    split
    case isTrue =>
      split
      · exact h
      · exact fun name hm => h name ((List.dropLast_sublist _).mem hm)
    case isFalse hp => exact names_concat h ⟨hn.1, hn.2, hp, hs⟩

theorem getLast?_ne (h : ∀ name ∈ place.comps, Name name) : place.comps.getLast? ≠ some ['.', '.'] :=
  fun he => (h _ (List.mem_of_getLast? he)).parent rfl

-- The loop of `normpath` keeps one `..` for each step above the root, unless the path is absolute.
theorem push_relative (h : ∀ name ∈ place.comps, Name name) :
    pushComponent false (List.replicate place.above ['.', '.'] ++ place.comps) segment =
      List.replicate (place.step segment).above ['.', '.'] ++ (place.step segment).comps := by
  rw [pushComponent, step]
  by_cases he : segment = [] ∨ segment = ['.']
  case pos => rw [if_pos he, if_pos he]
  case neg =>
    rw [if_neg he, if_neg he]
    by_cases hp : segment = ['.', '.']
    case neg => rw [if_neg hp, if_pos (.inl hp), List.append_assoc]
    case pos =>
      rw [if_pos hp]
      by_cases hc : place.comps = []
      case pos =>
        rw [if_pos hc, hc, List.append_nil, List.append_nil, List.replicate_succ', hp, if_pos]
        cases ha : place.above with
        | zero   => simp
        | succ n => simp [List.replicate_succ']
      case neg =>
        rw [if_neg hc, if_neg, List.dropLast_append_of_ne_nil hc]
        simp [hp, hc, getLast?_ne h]

theorem push_absolute (h : ∀ name ∈ place.comps, Name name) :
    pushComponent true place.comps segment = (place.step segment).comps := by
  rw [pushComponent, step]
  by_cases he : segment = [] ∨ segment = ['.']
  case pos => rw [if_pos he, if_pos he]
  case neg =>
    rw [if_neg he, if_neg he]
    by_cases hp : segment = ['.', '.']
    case neg => rw [if_neg hp, if_pos (.inl hp)]
    case pos =>
      rw [if_pos hp, if_neg (by simp [hp, getLast?_ne h])]
      split
      case isTrue hc => rw [hc, List.dropLast_nil]
      case isFalse   => rfl

theorem foldl_relative (h : ∀ name ∈ place.comps, Name name) (hs : ∀ segment ∈ segments, '/' ∉ segment) :
    segments.foldl (pushComponent false) (List.replicate place.above ['.', '.'] ++ place.comps) =
      List.replicate (segments.foldl step place).above ['.', '.'] ++ (segments.foldl step place).comps := by
  induction segments generalizing place with
  | nil          => rfl
  | cons c cs hi =>
    rw [List.foldl_cons, List.foldl_cons, push_relative h,
      hi (step_names h (hs c List.mem_cons_self)) fun d hd => hs d (List.mem_cons_of_mem _ hd)]

theorem foldl_absolute (h : ∀ name ∈ place.comps, Name name) (hs : ∀ segment ∈ segments, '/' ∉ segment) :
    segments.foldl (pushComponent true) place.comps = (segments.foldl step place).comps := by
  induction segments generalizing place with
  | nil          => rfl
  | cons c cs hi =>
    rw [List.foldl_cons, List.foldl_cons, push_absolute h,
      hi (step_names h (hs c List.mem_cons_self)) fun d hd => hs d (List.mem_cons_of_mem _ hd)]

theorem foldl_names (h : ∀ name ∈ place.comps, Name name) (hs : ∀ segment ∈ segments, '/' ∉ segment) :
    ∀ name ∈ (segments.foldl step place).comps, Name name := by
  induction segments generalizing place with
  | nil          => exact h
  | cons c cs hi => exact hi (step_names h (hs c List.mem_cons_self)) fun d hd => hs d (List.mem_cons_of_mem _ hd)

end Place

-- Where a specifier points to, from the directory of the file or from the root
def place (file : WorkspaceFile) (specifier : List Char) : Place :=
  (specifier.splitOn '/').foldl Place.step ⟨0, if specifier.head? = some '/' then [] else file.dir⟩

theorem place_names : ∀ name ∈ (place file specifier).comps, Name name := by
  refine Place.foldl_names ?_ not_mem_splitOn
  split
  · simp
  · exact file.names

theorem stripped_render {n : Nat} :
    stripped (renderPath (List.replicate n ['.', '.'] ++ comps)) = stripped (pathText comps) := by
  induction n with
  | zero      =>
    cases comps with
    | nil      => rfl
    | cons _ _ => rfl
  | succ n hi =>
    rw [← hi, List.replicate_succ, List.cons_append]
    cases List.replicate n ['.', '.'] ++ comps with
    | nil      => rfl
    | cons _ _ => rfl

theorem lookupKey_absolute (hr : specifier.head? = some '/') :
    lookupKey specifier = stripped (pathText (place file specifier).comps) := by
  obtain ⟨cs, rfl⟩ : ∃ cs, specifier = '/' :: cs := by
    cases specifier with
    | nil       => simp at hr
    | cons c cs => exact ⟨cs, by simpa using hr⟩
  have hs : initialSlashes ('/' :: cs) ≠ 0 := by
    unfold initialSlashes
    split <;> simp_all
  have hf := @Place.foldl_absolute (('/' :: cs).splitOn '/') ⟨0, []⟩ (by simp) not_mem_splitOn
  rw [lookupKey, normpath, if_neg hs, decide_eq_true hs, hf, place, if_pos hr]
  exact List.dropWhile_append_of_pos fun c hc => by simp [List.eq_of_mem_replicate hc]

theorem lookupKey_relative {path : List Char} (hp : initialSlashes path = 0)
    (hs : path.splitOn '/' = file.dir ++ specifier.splitOn '/') (hr : specifier.head? ≠ some '/') :
    lookupKey path = stripped (pathText (place file specifier).comps) := by
  have hf := @Place.foldl_relative (specifier.splitOn '/') ⟨0, file.dir⟩ file.names not_mem_splitOn
  rw [List.replicate_zero, List.nil_append] at hf
  rw [lookupKey, normpath, hp, if_pos rfl, hs, List.foldl_append, decide_eq_false (not_not.mpr rfl),
    Python.foldl_names file.names, List.nil_append, hf, place, if_neg hr]
  exact stripped_render

theorem lookupKey_specifier :
    lookupKey (join (dirname file.text) specifier) = stripped (pathText (place file specifier).comps) := by
  rw [dirname_text, join]
  by_cases hr : specifier.head? = some '/'
  case pos => rw [if_pos hr, lookupKey_absolute hr]
  case neg =>
    rw [if_neg hr]
    by_cases hd : file.dir = []
    case pos =>
      have hp : initialSlashes specifier = 0 := by
        cases specifier with
        | nil      => rfl
        | cons c _ => exact initialSlashes_cons (by simpa using hr)
      have hn : pathText file.dir = [] := by rw [hd, pathText, List.intercalate_nil]
      rw [if_pos (.inl hn), hn, List.nil_append]
      exact lookupKey_relative hp (by rw [hd, List.nil_append]) hr
    case neg =>
      have hne : pathText file.dir ≠ [] := intercalate_ne_nil file.names hd
      have hh := pathText_head file.names
      have hl : (pathText file.dir).getLast? ≠ some '/' := getLast?_intercalate file.names
      rw [if_neg (not_or.mpr ⟨hne, hl⟩)]
      refine lookupKey_relative ?_ ?_ hr
      · obtain ⟨c, cs, hc⟩ := List.exists_cons_of_ne_nil hne
        rw [hc] at hh ⊢
        exact initialSlashes_cons (by simpa using hh)
      · rw [List.splitOn_append_cons_self, pathText, splitOn_render file.names hd]

-- A specifier like `.`, `..` or `./a/` is the one of a directory.
def OfDirectory (specifier : List Char) : Prop :=
  (specifier.splitOn '/').getLast? ∈ [some [], some ['.'], some ['.', '.']]

instance : Decidable (OfDirectory specifier) :=
  inferInstanceAs (Decidable (_ ∈ _))

def IsRelative (specifier : List Char) : Prop :=
  specifier = ['.'] ∨ specifier = ['.', '.'] ∨ ['.', '/'] <+: specifier ∨ ['.', '.', '/'] <+: specifier

-- The files that may stand for a path itself, and those for its directory
def sourceFiles (path : List Char) : List (List Char) :=
  path :: tsResolveSuffixes.map (path ++ ·)

def directoryFiles (comps : List (List Char)) : List (List Char) :=
  indexFiles.map fun name => pathText (comps ++ [name])

def denotedTs (file : WorkspaceFile) (specifier : List Char) : List (List Char) :=
  let place := place file specifier
  if place.above ≠ 0 then []
  else if OfDirectory specifier then directoryFiles place.comps
  else sourceFiles (pathText place.comps) ++ directoryFiles place.comps

-- The specifier reaches its files: it does not climb above the root, it does not point to a hidden path, and one of a
-- directory is not taken for a file, as long as there are files to mistake.
def ClearTs (file : WorkspaceFile) (specifier : List Char) (files : List (List Char)) : Prop :=
  let place := place file specifier
  let key := stripped (pathText place.comps)
  if ¬isPathSpecifier specifier then
    specifier = ['.'] ∨ specifier = ['.', '.'] → ∀ path ∈ denotedTs file specifier, path ∉ files
  else if place.above ≠ 0 then
    ∀ path ∈ tsCandidates key, path ∉ files
  else if Hidden place.comps then
    (∀ path ∈ tsCandidates key, path ∉ files) ∧ (IsRelative specifier → ∀ path ∈ denotedTs file specifier, path ∉ files)
  else
    OfDirectory specifier → ∀ path ∈ sourceFiles key, path ∉ files

abbrev FaithfulTs (file : WorkspaceFile) (specifier : List Char) (files : List (List Char)) : Prop :=
  Faithful (resolveTsImport file.text specifier files) (denotedTs file specifier) files (IsRelative specifier)

theorem indexFiles_name : ∀ name ∈ indexFiles, Name name := by
  intro name hm
  exact ⟨by rintro rfl; exact absurd hm (by decide), by rintro rfl; exact absurd hm (by decide),
    by rintro rfl; exact absurd hm (by decide), by revert hm; revert name; decide⟩

theorem tsCandidates_pathText (h : ∀ name ∈ comps, Name name) :
    tsCandidates (pathText comps) = sourceFiles (pathText comps) ++ directoryFiles comps := by
  have hj : indexFiles.map (join (pathText comps)) = directoryFiles comps :=
    List.map_congr_left fun name hm => join_name h (indexFiles_name name hm)
  rw [tsCandidates, hj, sourceFiles]

theorem mem_directoryFiles_iff {path : List Char} (he : comps ≠ []) :
    path ∈ directoryFiles comps ↔ ∃ name ∈ indexFiles, path = pathText comps ++ '/' :: name := by
  simp only [directoryFiles, List.mem_map, pathText, intercalate_concat he, eq_comm]

theorem prefix_of_denoted {path : List Char} (hm : path ∈ sourceFiles (pathText comps) ++ directoryFiles comps) :
    pathText comps <+: path := by
  by_cases he : comps = []
  case pos =>
    rw [he]
    exact List.nil_prefix
  case neg =>
    cases List.mem_append.mp hm with
    | inl hm =>
      cases List.mem_cons.mp hm with
      | inl hp => exact hp ▸ List.prefix_rfl
      | inr hm =>
        obtain ⟨suffix, -, rfl⟩ := List.mem_map.mp hm
        exact List.prefix_append ..
    | inr hm =>
      obtain ⟨name, -, rfl⟩ := (mem_directoryFiles_iff he).mp hm
      exact List.prefix_append ..

theorem head_of_candidate {key path : List Char} (hk : key ≠ []) (hm : path ∈ tsCandidates key) :
    path.head? = key.head? := by
  cases List.mem_append.mp hm with
  | inl hm =>
    cases List.mem_cons.mp hm with
    | inl hp => rw [hp]
    | inr hm =>
      obtain ⟨suffix, -, rfl⟩ := List.mem_map.mp hm
      exact List.head?_append_of_ne_nil _ hk
  | inr hm =>
    obtain ⟨name, hn, rfl⟩ := List.mem_map.mp hm
    obtain ⟨c, cs, rfl, hne⟩ := (indexFiles_name name hn).cons
    rw [join, if_neg (by simpa using hne)]
    split
    · exact List.head?_append_of_ne_nil _ hk
    · exact List.head?_append_of_ne_nil _ hk

-- A hidden path with nothing but dots and slashes starts with two dots.
theorem dots_of_stripped (h : ∀ name ∈ comps, Name name) (hh : Hidden comps) (hs : stripped (pathText comps) = []) :
    ['.', '.'] <+: pathText comps := by
  cases comps with
  | nil       => exact absurd hh (by simp [Hidden, pathText])
  | cons c cs =>
    have hc := h c List.mem_cons_self
    have hp : c <+: pathText (c :: cs) := by
      cases cs with
      | nil      => simp only [pathText, List.intercalate_singleton, List.prefix_rfl]
      | cons _ _ =>
        rw [pathText, List.intercalate_cons_cons, List.append_assoc]
        exact List.prefix_append ..
    have dots : ∀ d ∈ c, d = '.' := by
      intro d hd
      have hm := List.dropWhile_eq_nil_iff.mp hs d (hp.subset hd)
      rw [decide_eq_true_eq, List.mem_pair] at hm
      exact hm.resolve_right fun he => hc.slash (he ▸ hd)
    refine List.IsPrefix.trans ?_ hp
    cases c with
    | nil      => exact absurd rfl hc.nonempty
    | cons d c =>
      obtain rfl := dots d List.mem_cons_self
      cases c with
      | nil      => exact absurd rfl hc.current
      | cons e c =>
        obtain rfl := dots e (List.mem_cons_of_mem _ List.mem_cons_self)
        exact List.prefix_append ['.', '.'] c

-- What is looked up for a hidden path is none of its files.
theorem hidden_candidates (h : ∀ name ∈ comps, Name name) (hh : Hidden comps) :
    ∀ path ∈ tsCandidates (stripped (pathText comps)), path ∉ sourceFiles (pathText comps) ++ directoryFiles comps := by
  intro path hm hd
  have hp := prefix_of_denoted hd
  by_cases hk : stripped (pathText comps) = []
  case pos =>
    rw [hk] at hm
    have none : ∀ path ∈ tsCandidates [], ¬['.', '.'] <+: path := by decide
    exact none path hm ((dots_of_stripped h hh hk).trans hp)
  case neg =>
    obtain ⟨tail, rfl⟩ := hp
    have hne : pathText comps ≠ [] := fun he => hk (by rw [he]; rfl)
    have hd := head_of_candidate hk hm
    rw [List.head?_append_of_ne_nil _ hne] at hd
    exact stripped_head (hd.symm.trans hh)

theorem sourceFiles_disjoint : ∀ path ∈ sourceFiles (pathText comps), path ∉ directoryFiles comps := by
  by_cases he : comps = []
  case pos =>
    rw [he]
    decide
  case neg =>
    intro path hm hd
    obtain ⟨name, -, rfl⟩ := (mem_directoryFiles_iff he).mp hd
    cases List.mem_cons.mp hm with
    | inl hp => simp at hp
    | inr hm =>
      obtain ⟨suffix, hs, hp⟩ := List.mem_map.mp hm
      have dot : ∀ suffix ∈ tsResolveSuffixes, suffix.head? = some '.' := by decide
      have hd := dot suffix hs
      rw [List.append_cancel_left hp] at hd
      exact absurd hd (by simp)

theorem isRelative_iff_of_not_path (h : ¬isPathSpecifier specifier) :
    IsRelative specifier ↔ specifier = ['.'] ∨ specifier = ['.', '.'] := by
  simp only [isPathSpecifier, decide_eq_true_eq, not_or] at h
  simp [IsRelative, h.1, h.2.1]

theorem faithfulTs_iff : FaithfulTs file specifier files ↔ ClearTs file specifier files := by
  have names := @place_names file specifier
  rw [FaithfulTs, ClearTs, resolveTsImport]
  by_cases hs : isPathSpecifier specifier
  case neg => rw [if_neg hs, if_pos hs, faithful_none_iff, isRelative_iff_of_not_path hs]
  case pos =>
    rw [if_pos hs, if_neg (not_not.mpr hs), lookupKey_specifier]
    by_cases ha : (place file specifier).above ≠ 0
    case pos =>
      have hd : denotedTs file specifier = [] := if_pos ha
      rw [if_pos ha, hd, faithful_disjoint_iff (by simp)]
      simp
    case neg =>
      have hd : denotedTs file specifier = if OfDirectory specifier then directoryFiles (place file specifier).comps
          else sourceFiles (pathText (place file specifier).comps) ++ directoryFiles (place file specifier).comps :=
        if_neg ha
      rw [if_neg ha]
      by_cases hh : Hidden (place file specifier).comps
      case pos =>
        rw [if_pos hh]
        refine faithful_disjoint_iff fun path hm hp => hidden_candidates names hh path hm ?_
        rw [hd] at hp
        split at hp
        · exact List.mem_append_right _ hp
        · exact hp
      case neg =>
        rw [if_neg hh, stripped_eq_self hh (pathText_head names), tsCandidates_pathText names, hd]
        by_cases ho : OfDirectory specifier
        case pos => rw [if_pos ho, faithful_append_iff sourceFiles_disjoint, forall_prop_of_true ho]
        case neg =>
          rw [if_neg ho]
          exact iff_of_true faithful_self fun h => absurd h ho

end TypeScript

section Both

-- The configuration in a hidden directory
def preview : WorkspaceFile where
  dir   := [".storybook".toList]
  base  := "preview.ts".toList
  names := by
    intro name hm
    rw [List.mem_singleton.mp hm]
    exact ⟨by decide, by decide, by decide, by decide⟩
  named := ⟨by decide, by decide, by decide, by decide⟩

theorem resolve_preview : resolveTsImport preview.text "./main".toList [".storybook/main.ts".toList] = none := by
  decide +kernel

end Both
end CodeMap
