import BridleModel.Json
import BridleModel.Library.Orders
import BridleModel.Library.Utf8Decoder
import BridleModel.Python.RealPath

-- `WorkspaceFileService.read_text` over a tree of files and symbolic links. Paths are lists of characters.
namespace Workspace

open Python (Location Links pathNames)

section Tree

-- What stands at a location that is no symbolic link. A file is given with its bytes and the ISO text of its time.
inductive Node
  | directory
  | file (raw : List UInt8) (mtime : String) (readable : Bool)
deriving Repr

-- `refused` holds where `lstat` and `stat` fail, but not because there is nothing: the directory may not be searched, or
-- a name is too long.
structure Tree where
  nodes   : List (Location × Node)
  links   : Links
  refused : Location → Bool

namespace Tree

variable (tree : Tree)

def readlink (location : Location) : Option (List Char) :=
  if tree.refused location then none else tree.links.lookup location

def resolve (path : Location) : Except Python.ResolveError Location :=
  Python.resolve tree.readlink tree.links.length path

-- `stat` of a resolved location
def stat (location : Location) : Option Node :=
  tree.nodes.lookup location

end Tree

end Tree

section Errors

-- `BridleError` with its `ApiError`
structure BridleError where
  code       : String
  message    : String
  statusCode : Nat
  resource   : String
  details    : Option Json.Dict

def ForbiddenError (resource message errorCode : String) (details : Option Json.Dict) : BridleError where
  code       := errorCode
  message    := message
  statusCode := 403
  resource   := resource
  details    := details

def PayloadTooLargeError (resource message : String) (details : Option Json.Dict) : BridleError where
  code       := "payload_too_large"
  message    := message
  statusCode := 413
  resource   := resource
  details    := details

def UnsupportedMediaError (resource message : String) (details : Option Json.Dict) : BridleError where
  code       := "unsupported_media_type"
  message    := message
  statusCode := 415
  resource   := resource
  details    := details

-- What leaves `read_text` as an exception: an error of the service, or one that nothing catches.
inductive Raised
  | bridle (error : BridleError)
  | resolve (error : Python.ResolveError)
  | osError
  | unicodeDecodeError

end Errors

section Read

structure WorkspaceFileReadResponse where
  path      : List Char
  size      : Nat
  mtime     : String
  encoding  : String
  content   : List Char
  truncated : Bool
deriving DecidableEq, Repr

def maxFileBytes : Nat :=
  1 * 1024 * 1024

def binaryProbeBytes : Nat :=
  8192

def deniedPrefixes : List (List Char) :=
  [".bridle/", ".git/", ".venv/", "node_modules/", "__pycache__/", ".pytest-tmp/", ".test-workspaces/", "e2e-runs/",
    "e2e-generated/"].map String.toList

-- `_WINDOWS_ABS.match`
def windowsAbs : List Char → Bool
  | drive :: ':' :: _ => drive.isAlpha
  | _                 => false

def absolute (relPath : List Char) : Bool :=
  relPath = [] ∨ relPath.head? = some '/' ∨ windowsAbs relPath

-- The names that a requested path is made of, under either separator
def parts (relPath : List Char) : List (List Char) :=
  pathNames (relPath.map fun c => if c = '\\' then '/' else c)

def text (names : List (List Char)) : List Char :=
  ['/'].intercalate names

def denied (posixInput : List Char) : Bool :=
  deniedPrefixes.any fun denied => posixInput = denied.rdropWhile (· = '/') ∨ denied.isPrefixOf posixInput

-- `as_posix` of a relative path
def asPosix (names : List (List Char)) : List Char :=
  if names = [] then ['.'] else text names

def bom : List UInt8 :=
  [0xef, 0xbb, 0xbf]

-- The text of a file and the name of its encoding
def decoded (raw : List UInt8) : Except Raised (String × List Char) :=
  if bom.isPrefixOf raw then
    match Utf8.decode (raw.drop 3) with
    | some content => .ok ("utf-8", content)
    | none         => .error .unicodeDecodeError
  else
    match Utf8.decode raw with
    | some content => .ok ("utf-8", content)
    | none         => .ok ("utf-8-fallback-replace", Utf8.decodeReplace raw)

-- `read_text` from the resolved target on, with its path relative to the workspace
def readTarget (tree : Tree) (target : Location) (posix : List Char) : Except Raised WorkspaceFileReadResponse :=
  let path : String × Json := ("path", .str (String.ofList posix))
  if tree.refused target then
    .error .osError
  else
    match tree.stat target with
    | none                            =>
      .error (.bridle {
        code := "file_not_found", message := "File not found", statusCode := 404, resource := "workspace_file"
        details := some [path]
      })
    | some .directory                 =>
      .error (.bridle {
        code := "bad_request", message := "Path is a directory", statusCode := 400, resource := "workspace_file"
        details := some [("reason", .str "is_directory"), path]
      })
    | some (.file raw mtime readable) =>
      if maxFileBytes < raw.length then
        .error (.bridle (PayloadTooLargeError "workspace_file" "File exceeds 1MB limit"
          (some [("size", .num raw.length), path])))
      else if ¬readable then
        .error .osError
      else if (raw.take binaryProbeBytes).contains 0 then
        .error (.bridle (UnsupportedMediaError "workspace_file" "Binary file cannot be previewed"
          (some [("reason", .str "binary"), path])))
      else
        (decoded raw).map fun (encoding, content) =>
          { path := posix, size := raw.length, mtime, encoding, content, truncated := false }

def readText (tree : Tree) (workspace : Location) (relPath : List Char) : Except Raised WorkspaceFileReadResponse :=
  if absolute relPath then
    .error (.bridle (ForbiddenError "workspace_file" "Absolute paths are not allowed" "path_outside_workspace" none))
  else if ['.', '.'] ∈ parts relPath then
    .error (.bridle (ForbiddenError "workspace_file" "Path escapes workspace" "path_outside_workspace" none))
  else if denied (text (parts relPath)) then
    .error (.bridle (ForbiddenError "workspace_file" "Path is denied" "path_denied"
      (some [("path", .str (String.ofList (text (parts relPath))))])))
  else do
    let workspaceResolved ← (tree.resolve workspace).mapError .resolve
    let target ← (tree.resolve (workspaceResolved ++ parts relPath)).mapError .resolve
    if ¬workspaceResolved.isPrefixOf target then
      .error (.bridle (ForbiddenError "workspace_file" "Path escapes workspace" "path_outside_workspace" none))
    else
      readTarget tree target (asPosix (target.drop workspaceResolved.length))

end Read

end Workspace
