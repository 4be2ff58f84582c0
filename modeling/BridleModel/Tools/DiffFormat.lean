import BridleModel.Tools.UnifiedDiff

open Python

-- What a unified diff of two texts says: the lines that stay, and the hunks between them
namespace Tools.UnifiedDiff

section Pieces

inductive Mark
  | context
  | removed
  | added
deriving DecidableEq, Repr

def Mark.char : Mark → Char
  | context => ' '
  | removed => '-'
  | added   => '+'

abbrev Body :=
  List (Mark × List Char)

def Body.old (body : Body) : List (List Char) :=
  (body.filter (·.fst ≠ .added)).map Prod.snd

def Body.new (body : Body) : List (List Char) :=
  (body.filter (·.fst ≠ .removed)).map Prod.snd

def Body.lines (body : Body) : List (List Char) :=
  body.map fun line => line.fst.char :: line.snd

-- The lines between two hunks, and the hunk after them. A count of one may be left out.
structure Piece where
  gap      : List (List Char)
  body     : Body
  heading  : List Char
  shortOld : Bool
  shortNew : Bool

-- The first line of a range after `before` lines. An empty range is named by the line before it.
def rangeStart (before count : Nat) : Nat :=
  if count = 0 then before else before + 1

def rangeText (short : Bool) (before count : Nat) : List Char :=
  if short ∧ count = 1 then Nat.toDigits 10 (rangeStart before count)
  else Nat.toDigits 10 (rangeStart before count) ++ ',' :: Nat.toDigits 10 count

def Piece.header (p : Piece) (i j : Nat) : List Char :=
  ['@', '@', ' ', '-'] ++ rangeText p.shortOld i p.body.old.length ++ [' ', '+'] ++
    rangeText p.shortNew j p.body.new.length ++ [' ', '@', '@'] ++ p.heading

def oldLines (pieces : List Piece) : List (List Char) :=
  pieces.flatMap fun p => p.gap ++ p.body.old

def newLines (pieces : List Piece) : List (List Char) :=
  pieces.flatMap fun p => p.gap ++ p.body.new

-- The lines of the hunks, after `i` lines of the old text and `j` of the new one
def hunkLines (i j : Nat) : List Piece → List (List Char)
  | []      => []
  | p :: ps =>
    p.header (i + p.gap.length) (j + p.gap.length) :: p.body.lines ++
      hunkLines (i + p.gap.length + p.body.old.length) (j + p.gap.length + p.body.new.length) ps

def Piece.texts (p : Piece) : List (List Char) :=
  p.heading :: p.gap ++ p.body.map Prod.snd

end Pieces

-- A unified diff with the two texts. The lines before the hunks name the files.
structure Written where
  heads  : List (List Char)
  pieces : List Piece
  tail   : List (List Char)
  proper : ∀ line ∈ heads ++ pieces.flatMap Piece.texts ++ tail, '\n' ∉ line ∧ '\r' ∉ line
  headed : ∀ line ∈ heads, ¬hunkMark <+: line

namespace Written

variable (d : Written)

def oldText : List Char :=
  joinLines (oldLines d.pieces ++ d.tail)

def newText : List Char :=
  joinLines (newLines d.pieces ++ d.tail)

def diff : List Char :=
  joinLines (d.heads ++ hunkLines 0 0 d.pieces)

-- No line of the diff, and no line before the end of the last hunk, holds a character that `splitlines` takes for an end.
def Clean : Prop :=
  (∀ line ∈ d.heads, Unbroken line) ∧ ∀ p ∈ d.pieces, ∀ text ∈ p.texts, Unbroken text

-- The diff is read, and takes the old text to the new one.
def Applies : Prop :=
  ∃ parsed, parseUnifiedDiff d.diff = .ok parsed ∧ (dryRunApply d.oldText parsed).valid ∧
    (dryRunApply d.oldText parsed).newText = d.newText

end Written
end Tools.UnifiedDiff
