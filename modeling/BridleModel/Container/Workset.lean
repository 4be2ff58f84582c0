import BridleModel.Container.Classification
import BridleModel.Library.Orders
import BridleModel.Python.Text

-- The module workset of a candidate: the files that it may write and those that it only reads.
namespace Container

-- The regular files of a directory tree by their path from its root
abbrev Files :=
  String → Option String

section Paths

-- `while p.startswith("./"): p = p[2:]`
def dropCurrent : List Char → List Char
  | '.' :: '/' :: cs => dropCurrent cs
  | cs               => cs

-- `ProposalPathValidator.normalize_workspace_relative`
def normalizeWorkspaceRelative (path : String) : String :=
  let segments := (dropCurrent (Python.strip path).toList).splitOn '/'
  String.ofList <| ['/'].intercalate <| segments.filter fun segment => segment ≠ [] ∧ segment ≠ ['.']

-- `ModuleWorksetResolver._normalize`
def normalize (path : String) : Option String :=
  let raw := (Python.strip path).toList
  if raw = [] ∨ raw.head? = some '/' ∨ raw[1]? = some ':' ∨ '\\' ∈ raw then
    none
  else if ['.', '.'] ∈ (raw.map fun c => if c = '\\' then '/' else c).splitOn '/' then
    none
  else
    some (normalizeWorkspaceRelative (Python.strip path)) |>.filter (· ≠ "")

example : normalize " ./src//a.py" = some "src/a.py" := by decide

end Paths

structure MapInterfaceMock where
  interfaceId   : String
  fromModule    : String
  toModule      : String
  filePath      : String
  mockHash      : String
  entityVersion : String
deriving DecidableEq, Repr

structure MapWorksetInput where
  moduleId            : String
  implementationFiles : List String
  testFiles           : List String
  testCommands        : List String
  interfaceMocks      : List MapInterfaceMock
  readonlyContext     : List String

inductive WorksetKind
  | implementation
  | test
  | mock
  | context
deriving DecidableEq, Repr

-- The "source" of an entry
def WorksetKind.source : WorksetKind → String
  | implementation => "map_module_file"
  | test           => "map_test_entity"
  | mock           => "map_interface_mock"
  | context        => "readonly_context"

structure WorksetFileEntry where
  relativePath  : String
  kind          : WorksetKind
  moduleId      : String
  interfaceId   : Option String := none
  mockHash      : Option String := none
  entityVersion : Option String := none
deriving DecidableEq, Repr

structure MapWorksetResult where
  writeSet      : List String
  readSet       : List String
  readonlyFiles : List String
  tests         : List String
  entries       : List WorksetFileEntry
  interfaces    : List MapInterfaceMock

-- The detail of an error; its code is "module_boundary_incomplete".
structure WorksetError where
  path     : String
  reason   : String
  expected : Option String := none
  actual   : Option String := none
deriving DecidableEq, Repr

section Resolve

variable (sha256 : String → String) (files : Files) (moduleId : String)

-- The loops over implementation, test and readonly files
def resolveFile (kind : WorksetKind) (invalid missing rel : String) : Except WorksetError WorksetFileEntry :=
  match normalize rel with
  | none      => .error { path := rel, reason := invalid }
  | some norm =>
    if (files norm).isSome then
      .ok { relativePath := norm, kind, moduleId }
    else
      .error { path := norm, reason := missing }

-- The loop over interface mocks, with the record that it adds.
def resolveMock (mock : MapInterfaceMock) : Except WorksetError (WorksetFileEntry × MapInterfaceMock) :=
  match normalize mock.filePath with
  | none      => .error { path := mock.filePath, reason := "invalid_mock_path" }
  | some norm =>
    match files norm with
    | none      => .error { path := norm, reason := "missing_interface_mock" }
    | some text =>
      let actualHash := sha256 text
      if mock.mockHash ≠ "" ∧ mock.mockHash ≠ actualHash then
        .error {
          path     := norm
          reason   := "mock_hash_mismatch"
          expected := some mock.mockHash
          actual   := some actualHash
        }
      else
        let entityVersion := if mock.entityVersion = "" then actualHash else mock.entityVersion
        .ok ({
          relativePath  := norm
          kind          := .mock
          moduleId
          interfaceId   := some mock.interfaceId
          mockHash      := some actualHash
          entityVersion := some entityVersion
        }, { mock with filePath := norm, mockHash := actualHash, entityVersion })

-- `ModuleWorksetResolver.resolve`
def resolve (workset : MapWorksetInput) : Except WorksetError MapWorksetResult := do
  let file := resolveFile files workset.moduleId
  let implementations ← workset.implementationFiles.mapM <| file .implementation "invalid_path" "missing_map_entity_file"
  let tests ← workset.testFiles.mapM <| file .test "invalid_path" "missing_test_entity_file"
  let mocks ← workset.interfaceMocks.mapM <| resolveMock sha256 files workset.moduleId
  let context ← workset.readonlyContext.mapM <| file .context "invalid_readonly_path" "missing_readonly_context"
  let writeSet := (implementations ++ tests).map (·.relativePath)
  let readonly := (mocks.map (·.fst) ++ context).map (·.relativePath)
  return {
    writeSet      := sortedSet writeSet
    readSet       := sortedSet (readonly ++ writeSet.filter (· ∉ readonly))
    readonlyFiles := sortedSet readonly
    tests         := workset.testCommands
    entries       := implementations ++ tests ++ mocks.map (·.fst) ++ context
    interfaces    := mocks.map (·.snd)
  }

end Resolve
end Container
