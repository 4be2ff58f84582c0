import Mathlib.Logic.Function.Iterate
import BridleModel.Library.Orders
import BridleModel.Python.Path

open Python

-- The files that the import statements of a source file are resolved to. Texts are lists of characters here.
namespace CodeMap

-- `posixpath.normpath(candidate).lstrip("./")`
def lookupKey (candidate : List Char) : List Char :=
  (normpath candidate).dropWhile (· ∈ ['.', '/'])

section Python

def pythonSuffix : List Char :=
  ".py".toList

def initFile : List Char :=
  "__init__.py".toList

-- The file of the module and the one of the package at a target
def moduleCandidates (target : List Char) : List (List Char) :=
  [target ++ pythonSuffix, join target initFile]

def pythonCandidates (importingRel module : List Char) : List (List Char) :=
  if module.head? = some '.' then
    let leading := (module.takeWhile (· = '.')).length
    let base := dirname^[leading - 1] (dirname importingRel)
    let parts := ((module.drop leading).splitOn '.').filter (· ≠ [])
    moduleCandidates (if parts ≠ [] then parts.foldl join base else base)
  else
    let parts := module.splitOn '.'
    let rootBased := ['/'].intercalate parts
    let packageDir := dirname importingRel
    let nested := if packageDir ≠ [] then parts.foldl join packageDir else rootBased
    moduleCandidates rootBased ++ moduleCandidates nested

-- `_resolve_python_import`
def resolvePythonImport (importingRel module : List Char) (files : List (List Char)) : Option (List Char) :=
  if module = [] then none
  else ((pythonCandidates importingRel module).map lookupKey).find? (· ∈ files)

end Python

section TypeScript

def tsResolveSuffixes : List (List Char) :=
  [".ts".toList, ".tsx".toList, ".d.ts".toList, ".js".toList, ".jsx".toList]

def indexFiles : List (List Char) :=
  ["index.ts".toList, "index.tsx".toList, "index.js".toList, "index.jsx".toList]

-- Whether the specifier is not the one of a package
def isPathSpecifier (specifier : List Char) : Bool :=
  ['.', '/'] <+: specifier ∨ ['.', '.', '/'] <+: specifier ∨ ['/'] <+: specifier

def tsCandidates (target : List Char) : List (List Char) :=
  target :: tsResolveSuffixes.map (target ++ ·) ++ indexFiles.map (join target)

-- `_resolve_ts_import`
def resolveTsImport (importingRel specifier : List Char) (files : List (List Char)) : Option (List Char) :=
  if isPathSpecifier specifier then
    (tsCandidates (lookupKey (join (dirname importingRel) specifier))).find? (· ∈ files)
  else
    none

end TypeScript
end CodeMap
