import Mathlib.Data.List.Infix
import Mathlib.Data.Nat.Digits.Defs
import BridleModel.Library.Orders
import BridleModel.Python.Lines

open Python

-- Unified diffs: how they are read, applied and validated. Texts and lines are lists of characters here.
namespace Tools.UnifiedDiff

section Data

structure DiffHunk where
  oldStart        : Nat
  oldCount        : Nat
  newStart        : Nat
  newCount        : Nat
  contextLines    : List (List Char) := []
  addedLines      : List (List Char) := []
  removedLines    : List (List Char) := []
  oldLines        : List (List Char) := []
  newLines        : List (List Char) := []
  noNewlineMarker : Bool := false
deriving DecidableEq, Repr

structure ParsedDiff where
  hunks   : List DiffHunk
  oldPath : List Char := []
  newPath : List Char := []
deriving DecidableEq, Repr

structure DryRunResult where
  valid        : Bool
  hunkCount    : Nat := 0
  addedLines   : Nat := 0
  removedLines : Nat := 0
  newText      : List Char := []
  error        : String := ""
deriving DecidableEq, Repr

structure ValidationResult where
  valid        : Bool
  error        : String := ""
  recoveryHint : String := ""
  dryRun       : Option DryRunResult := none
deriving DecidableEq, Repr

end Data

section Header

-- The zeros of the decimal digits; nine more digits follow each of them.
def decimalZeros : List Nat :=
  [
    0x30, 0x660, 0x6f0, 0x7c0, 0x966, 0x9e6, 0xa66, 0xae6, 0xb66, 0xbe6, 0xc66, 0xce6, 0xd66, 0xde6, 0xe50, 0xed0,
    0xf20, 0x1040, 0x1090, 0x17e0, 0x1810, 0x1946, 0x19d0, 0x1a80, 0x1a90, 0x1b50, 0x1bb0, 0x1c40, 0x1c50, 0xa620,
    0xa8d0, 0xa900, 0xa9d0, 0xa9f0, 0xaa50, 0xabf0, 0xff10, 0x104a0, 0x10d30, 0x11066, 0x110f0, 0x11136, 0x111d0,
    0x112f0, 0x11450, 0x114d0, 0x11650, 0x116c0, 0x11730, 0x118e0, 0x11950, 0x11c50, 0x11d50, 0x11da0, 0x11f50,
    0x16a60, 0x16ac0, 0x16b50, 0x1d7ce, 0x1d7d8, 0x1d7e2, 0x1d7ec, 0x1d7f6, 0x1e140, 0x1e2f0, 0x1e4f0, 0x1e950,
    0x1fbf0
  ]

def digitValue (c : Char) : Option Nat :=
  (decimalZeros.find? fun zero => zero ≤ c.toNat ∧ c.toNat < zero + 10).map (c.toNat - ·)

-- The longest run of digits
def readDigits : List Char → List Nat × List Char
  | []      => ([], [])
  | c :: cs =>
    match digitValue c with
    | none   => ([], c :: cs)
    | some d => (d :: (readDigits cs).fst, (readDigits cs).snd)

-- `(\d+)`
def readNumber (text : List Char) : Option (Nat × List Char) :=
  match readDigits text with
  | ([], _)    => none
  | (ds, rest) => some (Nat.ofDigits 10 ds.reverse, rest)

-- `(\d+)(?:,(\d+))?`, where the second number is 1 if it is missing
def readRange (text : List Char) : Option ((Nat × Nat) × List Char) := do
  let (start, rest) ← readNumber text
  match rest with
  | ',' :: rest' =>
    match readNumber rest' with
    | some (count, rest'') => return ((start, count), rest'')
    | none                 => return ((start, 1), rest)
  | _            => return ((start, 1), rest)

def readHeader (line : List Char) : Option ((Nat × Nat) × (Nat × Nat)) := do
  let rest ← ['@', '@', ' ', '-'].isPrefixOf? line
  let (old, rest) ← readRange rest
  let rest ← [' ', '+'].isPrefixOf? rest
  let (new, rest) ← readRange rest
  let _ ← [' ', '@', '@'].isPrefixOf? rest
  return (old, new)

end Header

section Parse

-- `_DIFF_HEADER_OLD` and `_DIFF_HEADER_NEW`
def diffHeaderOld : List Char :=
  "--- ".toList

def diffHeaderNew : List Char :=
  "+++ ".toList

def hunkMark : List Char :=
  "@@".toList

-- The lines at which the body of a hunk ends
def endsHunk (line : List Char) : Bool :=
  hunkMark <+: line ∨ diffHeaderOld <+: line ∨ diffHeaderNew <+: line

def noNewline : List Char :=
  "No newline at end of file".toList

def DiffHunk.context (h : DiffHunk) (line : List Char) : DiffHunk :=
  { h with
    contextLines := h.contextLines ++ [line], oldLines := h.oldLines ++ [line], newLines := h.newLines ++ [line] }

-- One turn of the loop over the body
def DiffHunk.take (h : DiffHunk) (line : List Char) : DiffHunk :=
  match line with
  | ' ' :: text => h.context text
  | '+' :: text => { h with addedLines := h.addedLines ++ [text], newLines := h.newLines ++ [text] }
  | '-' :: text => { h with removedLines := h.removedLines ++ [text], oldLines := h.oldLines ++ [text] }
  | '\\' :: _   => if noNewline <:+: line then { h with noNewlineMarker := true } else h
  | _           => h.context line

-- `_parse_hunk` on the lines from its start on
def parseHunk (lines : List (List Char)) : Option DiffHunk × Nat :=
  match lines with
  | []             => (none, 1)
  | header :: rest =>
    match readHeader header with
    | none            => (none, 1)
    | some (old, new) =>
      let body := rest.takeWhile (!endsHunk ·)
      let hunk := { oldStart := old.fst, oldCount := old.snd, newStart := new.fst, newCount := new.snd }
      (some (body.foldl DiffHunk.take hunk), 1 + body.length)

-- The loop of `parse_unified_diff` at index `i`; the lines of the last hunk are skipped.
def parseLines (skip i : Nat) : List (List Char) → ParsedDiff → Except String ParsedDiff
  | [], parsed            => .ok parsed
  | line :: lines, parsed =>
    match skip with
    | skip + 1 => parseLines skip (i + 1) lines parsed
    | 0        =>
      if diffHeaderOld <+: line then
        parseLines 0 (i + 1) lines { parsed with oldPath := stripChars (line.drop diffHeaderOld.length) }
      else if diffHeaderNew <+: line then
        parseLines 0 (i + 1) lines { parsed with newPath := stripChars (line.drop diffHeaderNew.length) }
      else if hunkMark <+: line then
        match parseHunk (line :: lines) with
        | (none, _)             => .error s!"Invalid hunk header at line {i + 1}"
        | (some hunk, consumed) =>
          parseLines (consumed - 1) (i + 1) lines { parsed with hunks := parsed.hunks ++ [hunk] }
      else
        parseLines 0 (i + 1) lines parsed

def parseUnifiedDiff (diff : List Char) : Except String ParsedDiff :=
  if stripChars diff = [] then .error "Empty diff string"
  else do
    let parsed ← parseLines 0 0 (splitlines diff) { hunks := [] }
    if parsed.hunks = [] then .error "No hunks found in diff" else return parsed

end Parse

section Apply

structure Applied where
  lines   : List (List Char)
  offset  : Int
  added   : Nat
  removed : Nat
deriving DecidableEq, Repr

-- One turn of the loop of `dry_run_apply`
def Applied.hunk (a : Applied) (h : DiffHunk) : Except String Applied :=
  let start : Int := h.oldStart - 1 + a.offset
  let count := a.lines.length
  if start < 0 ∨ count < start then
    .error s!"Hunk starts at line {h.oldStart}, but file has {count} lines"
  else
    let actual := ((a.lines.drop start.toNat).take h.oldCount).map rstripEnds
    if actual.length ≠ h.oldLines.length then
      .error s!"Hunk expects {h.oldLines.length} lines at line {h.oldStart}, but file has {actual.length} lines"
    else
      match (h.oldLines.zip actual).findIdx? fun pair => pair.fst ≠ pair.snd with
      | some ci => .error s!"Context mismatch at line {h.oldStart + ci}"
      | none    =>
        let replacement := h.newLines.map (· ++ ['\n'])
        .ok {
          lines   := a.lines.take start.toNat ++ replacement ++ a.lines.drop (start.toNat + h.oldCount)
          offset  := a.offset + (replacement.length - h.oldCount)
          added   := a.added + h.addedLines.length
          removed := a.removed + h.removedLines.length
        }

def dryRunApply (originalText : List Char) (parsed : ParsedDiff) : DryRunResult :=
  if parsed.hunks = [] then { valid := false, error := "No hunks to apply" }
  else if parsed.hunks.any DiffHunk.noNewlineMarker then
    { valid := false, error := "No newline at end of file marker is not supported" }
  else
    let lines := splitlinesKeepends originalText
    match parsed.hunks.foldlM Applied.hunk { lines, offset := 0, added := 0, removed := 0 } with
    | .error error => { valid := false, error }
    | .ok a        =>
      {
        valid        := true
        hunkCount    := parsed.hunks.length
        addedLines   := a.added
        removedLines := a.removed
        newText      := a.lines.flatten
      }

end Apply

section Validate

def devNull : List Char :=
  "/dev/null".toList

-- `_normalize_diff_path`
def normalizeDiffPath (rawPath : List Char) : List Char :=
  let path := ((stripChars rawPath).takeWhile (· ≠ '\t')).takeWhile (· ≠ ' ')
  if ['a', '/'] <+: path ∨ ['b', '/'] <+: path then path.drop 2 else path

-- `_validate_header_paths`, with the empty text for no error
def validateHeaderPaths (path : List Char) (changeType : String) (parsed : ParsedDiff) : String :=
  let target := normalizeDiffPath path
  let oldPath := normalizeDiffPath parsed.oldPath
  let newPath := normalizeDiffPath parsed.newPath
  let old := String.ofList oldPath
  let new := String.ofList newPath
  if changeType = "modify" then
    if oldPath ≠ [] ∧ oldPath ≠ target then
      s!"Diff old path '{old}' does not match target path '{String.ofList target}'"
    else if newPath ≠ [] ∧ newPath ≠ target then
      s!"Diff new path '{new}' does not match target path '{String.ofList target}'"
    else ""
  else if changeType = "add" then
    if oldPath ≠ [] ∧ oldPath ≠ devNull then
      s!"Add diff old path must be /dev/null, got '{old}'"
    else if newPath ≠ [] ∧ newPath ≠ target then
      s!"Diff new path '{new}' does not match target path '{String.ofList target}'"
    else ""
  else if changeType = "remove" then
    if oldPath ≠ [] ∧ oldPath ≠ target then
      s!"Diff old path '{old}' does not match target path '{String.ofList target}'"
    else if newPath ≠ [] ∧ newPath ≠ devNull then
      s!"Remove diff new path must be /dev/null, got '{new}'"
    else ""
  else ""

variable (lower : String → String)

def recoveryHintForError (error changeType : String) : String :=
  let has (text : String) : Bool := text.toList <:+: (lower error).toList
  if has "empty diff" then
    "Provide a unified diff with ---/+++ headers and at least one @@ hunk."
  else if has "no hunks" then
    "Include one or more @@ -old,+new @@ hunks with context lines."
  else if has "invalid hunk header" then
    "Use @@ -<start>,<count> +<start>,<count> @@ with matching context lines."
  else if has "context" ∧ has "mismatch" then
    "Re-read the file and align diff context lines exactly with the current content."
  else if has "add diff must not contain removed" then
    "For add, only + lines are allowed; use modify to change an existing file."
  else if has "cannot add file that already exists" then
    "Use change_type modify with a patch against the existing file content."
  else if has "cannot modify file that does not exist" then
    "Use change_type add with a new-file diff (--- /dev/null)."
  else if has "cannot remove file that does not exist" then
    "Only remove paths that exist under the sandbox workspace."
  else if has "remove diff must delete" then
    "Remove patches must delete all lines; use a single hunk removing the full file."
  else if changeType = "remove" then
    "Use --- path and +++ path headers with hunks that remove every line."
  else
    "Verify ---/+++ paths, hunk line numbers, and that context lines match the file."

def ValidationResult.rejected (changeType : String) (dryRun : Option DryRunResult) (error : String) : ValidationResult :=
  { valid := false, error, recoveryHint := recoveryHintForError lower error changeType, dryRun }

def addResult (parsed : ParsedDiff) : DryRunResult :=
  let newLines := parsed.hunks.flatMap DiffHunk.newLines
  {
    valid      := true
    hunkCount  := parsed.hunks.length
    addedLines := (parsed.hunks.map (·.addedLines.length)).sum
    newText    := ['\n'].intercalate newLines ++ if newLines = [] then [] else ['\n']
  }

def removeResult (parsed : ParsedDiff) : DryRunResult where
  valid        := true
  hunkCount    := parsed.hunks.length
  removedLines := (parsed.hunks.map (·.removedLines.length)).sum

def validatePatchForPath (path : List Char) (changeType : String) (diff : List Char)
    (originalText : Option (List Char)) (fileExists : Bool) : ValidationResult :=
  let rejected := ValidationResult.rejected lower changeType none
  let failed (dr : DryRunResult) := ValidationResult.rejected lower changeType (some dr) dr.error
  if changeType ∉ ["modify", "add", "remove"] then rejected s!"Unsupported change_type: {changeType}"
  else
    match parseUnifiedDiff diff with
    | .error error => rejected error
    | .ok parsed   =>
      let pathError := validateHeaderPaths path changeType parsed
      if pathError ≠ "" then rejected pathError
      else if changeType = "add" ∧ fileExists then
        rejected s!"Cannot add file that already exists: {String.ofList path}"
      else if changeType = "remove" ∧ ¬fileExists then
        rejected s!"Cannot remove file that does not exist: {String.ofList path}"
      else if changeType = "modify" then
        if ¬fileExists then rejected s!"Cannot modify file that does not exist: {String.ofList path}"
        else
          match originalText with
          | none          => rejected "original_text required for modify"
          | some original =>
            let dr := dryRunApply original parsed
            if ¬dr.valid then failed dr else { valid := true, dryRun := some dr }
      else if changeType = "add" then
        if (parsed.hunks.map (·.removedLines.length)).sum ≠ 0 ∨ (parsed.hunks.map (·.oldLines.length)).sum ≠ 0 then
          rejected "Add diff must not contain removed lines"
        else
          { valid := true, dryRun := some (addResult parsed) }
      else
        match originalText with
        | none          => rejected "original_text required for remove"
        | some original =>
          let dr := dryRunApply original parsed
          if ¬dr.valid then failed dr
          else if dr.newText ≠ [] then
            failed { dr with valid := false, error := "Remove diff must delete the full file content" }
          else
            { valid := true, dryRun := some (removeResult parsed) }

end Validate
end Tools.UnifiedDiff
