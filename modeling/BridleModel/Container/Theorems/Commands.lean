import BridleModel.Container.Commands
import BridleModel.Container.Theorems.Contract

namespace Container

open Python SortBy TestCommandPolicy

section Parsed

variable {lower : String → String} {command : String} {parsed : ParsedCommand} {argv rawArgv : List String}
  {which : String → Option String}

theorem shlexSplit_eq_ok_iff {text : String} :
    shlexSplit text = .ok rawArgv ↔
      ∃ tokens, shlex.split text.toList = some tokens ∧ rawArgv = tokens.map String.ofList := by
  rw [shlexSplit]
  cases shlex.split text.toList with
  | none        => simp
  | some tokens => simp [eq_comm]

theorem parseCommandArgv_eq_ok_iff :
    parseCommandArgv command = .ok parsed ↔ strip command ≠ "" ∧ ∃ rawArgv, shlexSplit (strip command) = .ok rawArgv ∧
      rawArgv ≠ [] ∧ parsed = { raw := strip command, argv := rawArgv.map stripSurroundingQuotes } := by
  rw [parseCommandArgv]
  simp only [Except.bind_eq_ok_iff, Except.raiseIf_eq_ok_iff, pure, Except.pure, Except.ok.injEq]
  constructor
  · intro h
    obtain ⟨_, he, rawArgv, hs, _, hr, hp⟩ := h
    exact ⟨he, rawArgv, hs, hr, hp.symm⟩
  · intro h
    obtain ⟨he, rawArgv, hs, hr, hp⟩ := h
    exact ⟨(), he, rawArgv, hs, (), hr, hp.symm⟩

theorem parseCommandArgv_strip : parseCommandArgv (strip command) = parseCommandArgv command := by
  rw [parseCommandArgv, parseCommandArgv, strip_strip]

theorem validate_strip : validate lower (strip command) = validate lower command := by
  rw [validate, validate, strip_strip]

-- What an accepted text goes through: it parses, and it holds no part that a shell would read.
theorem accepted_of_validate (h : validate lower command = []) :
    (∃ parsed, parseCommandArgv command = .ok parsed) ∧ shellMetaSubstrings.find? (isIn · (strip command)) = none := by
  rw [validate] at h
  by_cases he : strip command = ""
  case pos => simp [he] at h
  case neg =>
    simp only [he, if_false, parseCommandArgv_strip] at h
    cases hp : parseCommandArgv command with
    | error e   => simp [hp] at h
    | ok parsed =>
      simp only [hp, List.append_eq_nil_iff] at h
      refine ⟨⟨parsed, rfl⟩, ?_⟩
      cases hf : shellMetaSubstrings.find? (isIn · (strip command)) with
      | none    => rfl
      | some op => simp [hf] at h

theorem isIn_mono {op part text : String} (hi : part.toList <:+: text.toList) (h : isIn op part = true) :
    isIn op text = true := by
  rw [isIn, decide_eq_true_eq] at *
  exact h.trans hi

-- Every part of a parsed argv stands in the text.
theorem argv_subtext (h : parseCommandArgv command = .ok parsed) :
    ∀ tok ∈ parsed.argv, tok.toList <:+: (strip command).toList := by
  obtain ⟨_, rawArgv, hs, _, rfl⟩ := parseCommandArgv_eq_ok_iff.mp h
  obtain ⟨tokens, ht, rfl⟩ := shlexSplit_eq_ok_iff.mp hs
  intro tok hm
  simp only [List.map_map, List.mem_map, Function.comp] at hm
  obtain ⟨t, hm, rfl⟩ := hm
  rw [stripSurroundingQuotes, String.toList_ofList, String.toList_ofList]
  exact Lexer.unquote_subtext.trans (Lexer.split_subtext ht t hm)

theorem argvContainsShellMeta_parsed (h : validate lower command = []) (hp : parseCommandArgv command = .ok parsed) :
    argvContainsShellMeta parsed.argv = none := by
  have hm := List.find?_eq_none.mp (accepted_of_validate h).right
  refine List.findSome?_eq_none_iff.mpr fun tok ht => List.find?_eq_none.mpr fun op ho hi => ?_
  exact hm op ho (isIn_mono (argv_subtext hp tok ht) hi)

-- The tokens that `shlex` cuts are the parsed ones exactly when the text opens no quotation.
theorem parsed_eq_iff (hs : shlexSplit (strip command) = .ok rawArgv) :
    rawArgv.map stripSurroundingQuotes = rawArgv ↔ shlex.NoOpening (' ' :: (strip command).toList) := by
  obtain ⟨tokens, ht, rfl⟩ := shlexSplit_eq_ok_iff.mp hs
  rw [← Lexer.map_unquote_iff rfl ht, List.map_map]
  constructor
  · intro he
    refine List.map_injective_iff.mpr (fun _ _ => String.ofList_injective) ?_
    rw [List.map_map, ← he]
    simp [Function.comp_def, stripSurroundingQuotes]
  · intro he
    conv_rhs => rw [← he]
    simp [Function.comp_def, stripSurroundingQuotes]

end Parsed

section Compiled

@[simp]
theorem testCommandPolicy_validate {lower : String → String} {policyErrors : List String → String → List String} :
    (testCommandPolicy lower policyErrors).validate = validate lower :=
  rfl

@[simp]
theorem testCommandPolicy_split {lower : String → String} {policyErrors : List String → String → List String} :
    (testCommandPolicy lower policyErrors).split = shlexSplit :=
  rfl

variable {policy : CommandPolicy} {sha256 : String → String} {commands : List String} {testEntityId : String}
  {mapSeq : Int} {approved : List ContractCommand} {text : String}

theorem compileCommand_eq_ok_iff {c : ContractCommand} :
    compileCommand policy sha256 testEntityId mapSeq text = .ok c ↔ policy.validate text = [] ∧ ∃ argv,
      policy.split text = .ok argv ∧
      c = { commandId := commandIdOf sha256 testEntityId mapSeq text, argv, rawCommand := text, testEntityId, mapSeq } := by
  rw [compileCommand]
  cases policy.validate text with
  | cons _ _ => simp
  | nil      =>
    cases hs : policy.split text with
    | error e => simp [bind, Except.bind]
    | ok argv => simp [bind, Except.bind, pure, Except.pure, eq_comm]

-- The argv of a compiled command is what the policy cuts its own text into.
theorem split_of_compiled (h : compileCommands policy sha256 commands testEntityId mapSeq = .ok approved) :
    ∀ c ∈ approved, policy.split c.rawCommand = .ok c.argv := by
  intro c hc
  obtain ⟨text, _, ht⟩ := (Except.mem_of_mapM h).mp hc
  obtain ⟨_, argv, hs, rfl⟩ := compileCommand_eq_ok_iff.mp ht
  exact hs

theorem compiled_of_mem (h : compileCommands policy sha256 commands testEntityId mapSeq = .ok approved)
    (hm : text ∈ commands) (hne : strip text ≠ "") : ∃ c ∈ approved, c.rawCommand = strip text := by
  have hm : strip text ∈ (commands.map strip).filter (· ≠ "") :=
    List.mem_filter.mpr ⟨List.mem_map_of_mem hm, by simpa using hne⟩
  obtain ⟨c, hc, ht⟩ := Except.ok_of_mapM h hm
  obtain ⟨_, argv, _, rfl⟩ := compileCommand_eq_ok_iff.mp ht
  exact ⟨_, hc, rfl⟩

end Compiled

section OneArgv

-- Some command has this text, and each that has it has this argv.
def HasArgv (command : String) (argv : List String) (cmds : List TestCommandSnapshot) : Prop :=
  (∃ cmd ∈ cmds, cmd.rawCommand = strip command) ∧ ∀ cmd ∈ cmds, cmd.rawCommand = strip command → cmd.argv = argv

-- The argv that the policy has inspected is the one in the manifests and the frozen contracts, and what follows the
-- executable in a subprocess.
structure OneArgv (lower : String → String) (command : String) (argv : List String) : Prop where
  inspected : parseCommandArgv command = .ok { raw := strip command, argv }
  compiled  : ∀ {policyErrors sha256 commands testEntityId mapSeq approved}, command ∈ commands →
    compileCommands (testCommandPolicy lower policyErrors) sha256 commands testEntityId mapSeq = .ok approved →
    (∀ writeSet red trees, HasArgv command argv (requestManifest approved writeSet red trees).commands) ∧
    ∀ {r contract}, r.commands = approved → freeze r = .ok contract →
      HasArgv command argv (contract.commands.map (·.toTestCommandSnapshot))
  executed  : ∀ which,
    let spawned := resolveExecutable lower which (argv.headD "") ++ argv.tail
    let head := executableName lower (argv.headD "")
    runPythonCommand lower which command = some spawned ∧
      runCommand lower which command = if head = "echo" ∨ head = "exit" then none else some spawned

variable {lower : String → String} {command : String} {argv : List String} {parsed : ParsedCommand}
  {approved : List ContractCommand}

theorem hasArgv_iff (he : ∃ c ∈ approved, c.rawCommand = strip command)
    (hs : ∀ c ∈ approved, shlexSplit c.rawCommand = .ok c.argv) :
    HasArgv command argv (approved.map (·.toTestCommandSnapshot)) ↔ shlexSplit (strip command) = .ok argv := by
  obtain ⟨c, hc, ht⟩ := he
  constructor
  · intro h
    rw [← h.right _ (List.mem_map_of_mem hc) ht, ← ht]
    exact hs c hc
  · intro h
    refine ⟨⟨_, List.mem_map_of_mem hc, ht⟩, fun cmd hm ht => ?_⟩
    obtain ⟨d, hd, rfl⟩ := List.mem_map.mp hm
    have hc := hs d hd
    rw [ht, h] at hc
    exact (Except.ok.inj hc).symm

-- The executor runs what the policy has inspected.
theorem executed_of_validate (h : validate lower command = []) (hp : parseCommandArgv command = .ok parsed)
    (which : String → Option String) :
    let spawned := resolveExecutable lower which (parsed.argv.headD "") ++ parsed.argv.tail
    let head := executableName lower (parsed.argv.headD "")
    runPythonCommand lower which command = some spawned ∧
      runCommand lower which command = if head = "echo" ∨ head = "exit" then none else some spawned := by
  have hr : runArgv lower which parsed.argv = some (resolveExecutable lower which (parsed.argv.headD "") ++
      parsed.argv.tail) := by
    rw [runArgv, argvContainsShellMeta_parsed h hp]
  constructor
  · rw [runPythonCommand, hp]
    exact hr
  · rw [runCommand, hp, ← hr]
    rfl

theorem compileCommands_singleton {rawArgv : List String} (policyErrors : List String → String → List String)
    (hne : strip command ≠ "") (hv : validate lower command = []) (hs : shlexSplit (strip command) = .ok rawArgv) :
    compileCommands (testCommandPolicy lower policyErrors) id [command] "" 0 = .ok [{
      commandId := commandIdOf id "" 0 (strip command), argv := rawArgv, rawCommand := strip command,
      testEntityId := "", mapSeq := 0 }] := by
  rw [compileCommands, List.map_singleton, List.filter_cons_of_pos (by simpa using hne), List.filter_nil,
    List.mapM_cons, compileCommand, testCommandPolicy_validate, validate_strip, hv, testCommandPolicy_split, hs]
  rfl

theorem compiled_iff (hne : strip command ≠ "") (hv : validate lower command = []) :
    (∀ {policyErrors sha256 commands testEntityId mapSeq approved}, command ∈ commands →
      compileCommands (testCommandPolicy lower policyErrors) sha256 commands testEntityId mapSeq = .ok approved →
      (∀ writeSet red trees, HasArgv command argv (requestManifest approved writeSet red trees).commands) ∧
      ∀ {r contract}, r.commands = approved → freeze r = .ok contract →
        HasArgv command argv (contract.commands.map (·.toTestCommandSnapshot))) ↔
    shlexSplit (strip command) = .ok argv := by
  constructor
  · intro h
    obtain ⟨⟨parsed, hp⟩, _⟩ := accepted_of_validate hv
    obtain ⟨_, rawArgv, hs, _, _⟩ := parseCommandArgv_eq_ok_iff.mp hp
    have hc := compileCommands_singleton (fun _ _ => []) hne hv hs
    have hm := (h List.mem_cons_self hc).left [] false ⟨[], [], []⟩
    rw [hs, ← hm.right _ List.mem_cons_self rfl]
  · intro h policyErrors sha256 commands testEntityId mapSeq approved hm hc
    have he := compiled_of_mem hc hm hne
    have hs := split_of_compiled hc
    constructor
    · intro writeSet red trees
      exact (hasArgv_iff he hs).mpr h
    · intro r contract hr hf
      have hk : ∀ c, c ∈ contract.commands ↔ c ∈ approved := fun c => by
        rw [freeze_eq_ok_iff.mp hf, ← hr]
        exact mem_sortBy
      obtain ⟨c, hcm, hct⟩ := he
      exact (hasArgv_iff ⟨c, (hk c).mpr hcm, hct⟩ fun c hcm => hs c ((hk c).mp hcm)).mpr h

theorem oneArgv_iff (h : validate lower command = []) :
    (∃ argv, OneArgv lower command argv) ↔ shlex.NoOpening (' ' :: (strip command).toList) := by
  obtain ⟨⟨parsed, hp⟩, _⟩ := accepted_of_validate h
  obtain ⟨hne, rawArgv, hs, _, rfl⟩ := parseCommandArgv_eq_ok_iff.mp hp
  rw [← parsed_eq_iff hs]
  constructor
  · intro ho
    obtain ⟨argv, ho⟩ := ho
    have ha : argv = rawArgv.map stripSurroundingQuotes := by
      have hi := hp.symm.trans ho.inspected
      injection hi with hi
      injection hi with _ hi
      exact hi.symm
    have hc := (compiled_iff hne h).mp ho.compiled
    rw [hs, ha] at hc
    exact (Except.ok.inj hc).symm
  · intro he
    refine ⟨rawArgv.map stripSurroundingQuotes, hp, (compiled_iff hne h).mpr ?_, executed_of_validate h hp⟩
    rw [hs, he]

end OneArgv

section Quoted

theorem oneArgv_iff_pytest :
    validate String.toLower "python -m pytest -k it\"s" = [] ∧
      ((∃ argv, OneArgv String.toLower "python -m pytest -k it\"s" argv) ↔
        shlex.NoOpening (' ' :: (strip "python -m pytest -k it\"s").toList)) := by
  have h : validate String.toLower "python -m pytest -k it\"s" = [] := by decide +kernel
  exact ⟨h, oneArgv_iff h⟩

theorem not_oneArgv :
    ¬∀ (lower : String → String) (command : String), validate lower command = [] → ∃ argv, OneArgv lower command argv := by
  intro h
  have hv : validate String.toLower "pytest -k \"a or b\"" = [] := by decide +kernel
  obtain ⟨argv, ho⟩ := h String.toLower "pytest -k \"a or b\"" hv
  have hc := (compiled_iff (by decide) hv).mp ho.compiled
  have hi := ho.inspected
  have hs : shlexSplit (strip "pytest -k \"a or b\"") = .ok ["pytest", "-k", "\"a or b\""] := by rfl
  rw [hs] at hc
  cases hc
  have hp : parseCommandArgv "pytest -k \"a or b\"" = .ok ⟨"pytest -k \"a or b\"", ["pytest", "-k", "a or b"]⟩ := by
    rfl
  rw [hp] at hi
  injection hi with hi
  injection hi with _ hi
  contradiction

end Quoted
end Container
