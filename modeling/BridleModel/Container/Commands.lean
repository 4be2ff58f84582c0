import BridleModel.Library.Lexer
import BridleModel.Python.Text
import BridleModel.Container.Authoritative

-- The texts of test commands: what the policy accepts, and the argv that the policy, the compiler and the executor
-- each make of one.
namespace Container

open Python

section Shlex

-- `shlex` with `posix=False` and `whitespace_split`, which keeps the quotation marks in its tokens.
def shlex : Lexer Char where
  blank c  := c = ' ' ∨ c = '\t' ∨ c = '\r' ∨ c = '\n'
  quote c  := c = '"' ∨ c = '\''
  disjoint := by
    intro c h
    simp only [decide_eq_true_eq] at h
    cases h with
    | inl h => subst h; rfl
    | inr h => subst h; rfl

def shlexSplit (text : String) : Except Exc (List String) :=
  match shlex.split text.toList with
  | some tokens => .ok (tokens.map String.ofList)
  | none        => .error (.valueError "No closing quotation")

example : (shlexSplit "a \"b c\"d e\"f g").toOption = some ["a", "\"b c\"", "d", "e\"f", "g"] := by decide

end Shlex

section Policy

structure ParsedCommand where
  raw  : String
  argv : List String
deriving DecidableEq, Repr

def stripSurroundingQuotes (token : String) : String :=
  String.ofList (shlex.unquote token.toList)

def parseCommandArgv (command : String) : Except Exc ParsedCommand := do
  let cmd := strip command
  Except.raiseIf (cmd = "") (.valueError "Empty test command")
  let rawArgv ← shlexSplit cmd
  Except.raiseIf (rawArgv = []) (.valueError "Empty test command")
  return { raw := cmd, argv := rawArgv.map stripSurroundingQuotes }

def forbiddenCommands : List String :=
  ["rm", "del", "rmdir", "remove-item", "curl", "wget", "invoke-webrequest", "start-process", "format", "shutdown",
    "scp", "ssh"]

def forbiddenGitSubcommands : List String :=
  ["reset", "checkout", "clean"]

def shellMetaSubstrings : List String :=
  [";", "&&", "||", "|", ">", ">>", "<", "$(", "`", "&", "\n", "\r"]

-- `part in text`
def isIn (part text : String) : Bool :=
  part.toList <:+: text.toList

-- `lower` is `str.lower` of Python.
variable (lower : String → String)

-- The name of an executable, in small letters and without its directories.
def executableName (token : String) : String :=
  String.ofList <| ((lower token).toList.map fun c => if c = '\\' then '/' else c).rtakeWhile (· ≠ '/')

def validateExecutable (tokens : List String) : List String :=
  let executable := executableName lower (tokens.headD "")
  let subcommand := tokens.getD 1 ""
  let errors :=
    (if executable ∈ forbiddenCommands then ["Command '" ++ executable ++ "' is not allowed"] else []) ++
    if executable = "git" ∧ tokens.length > 1 ∧ lower subcommand ∈ forbiddenGitSubcommands then
      ["Git subcommand '" ++ subcommand ++ "' is not allowed"]
    else []
  if executable = "pytest" ∨ executable = "echo" ∨ executable = "exit" then
    errors
  else if executable = "npm" then
    let argv := tokens.map lower
    if argv = ["npm", "test"] ∨ argv = ["npm", "run", "build"] then errors
    else errors ++ ["npm only allows \"npm test\" or \"npm run build\""]
  else if executable = "python" then
    if tokens.length < 3 ∨ subcommand ≠ "-m" ∨ lower (tokens.getD 2 "") ≠ "pytest" then
      errors ++ ["python only allows \"python -m pytest ...\""]
    else errors
  else
    let name := if executable.endsWith ".exe" then executable.dropEnd 4 |>.toString else executable
    errors ++ ["Command '" ++ name ++ "' is not in allowlist"]

def excText : Exc → String
  | .typeError          => "TypeError"
  | .keyError key       => key
  | .valueError message => message

def TestCommandPolicy.validate (command : String) : List String :=
  let cmd := strip command
  if cmd = "" then
    ["Empty test command"]
  else
    let lowered := lower cmd
    let shell :=
      match shellMetaSubstrings.find? (isIn · cmd) with
      | some op => ["Shell operator '" ++ op ++ "' is not allowed"]
      | none    => []
    let invocation :=
      if isIn "powershell" lowered ∨ "cmd ".toList <+: lowered.toList then ["Shell invocation is not allowed"] else []
    match parseCommandArgv cmd with
    | .error exc => shell ++ invocation ++ ["Cannot parse command: " ++ excText exc]
    | .ok parsed =>
      let network :=
        if ¬isIn "requires_network" lowered ∧ ["curl", "wget", "http://", "https://"].any (isIn · lowered) then
          ["Network commands require explicit requires_network approval"]
        else []
      shell ++ invocation ++ validateExecutable lower parsed.argv ++ network

-- The policy of the compiler; the other checks of the sandbox are a parameter.
def testCommandPolicy (policyErrors : List String → String → List String) : CommandPolicy where
  validate     := TestCommandPolicy.validate lower
  policyErrors := policyErrors
  split        := shlexSplit

end Policy

section Executor

variable (lower : String → String)

def argvContainsShellMeta (argv : List String) : Option String :=
  argv.findSome? fun tok => shellMetaSubstrings.find? (isIn · tok)

-- `which` is `shutil.which` with the PATH of the call.
def resolveExecutable (which : String → Option String) (name : String) : List String :=
  match which name with
  | none      => [name]
  | some full =>
    let low := lower full
    if low.endsWith ".cmd" ∨ low.endsWith ".bat" then ["cmd.exe", "/c", full] else [full]

-- The argv of the subprocess that is spawned; `none` where the call returns without one.
def runArgv (which : String → Option String) (argv : List String) : Option (List String) :=
  match argvContainsShellMeta argv with
  | some _ => none
  | none   => some (resolveExecutable lower which (argv.headD "") ++ argv.tail)

def runCommand (which : String → Option String) (command : String) : Option (List String) := do
  let parsed ← (parseCommandArgv command).toOption
  let head := executableName lower (parsed.argv.headD "")
  if head = "echo" ∨ head = "exit" then none else runArgv lower which parsed.argv

def runPythonCommand (which : String → Option String) (command : String) : Option (List String) := do
  let parsed ← (parseCommandArgv command).toOption
  runArgv lower which parsed.argv

end Executor
end Container
