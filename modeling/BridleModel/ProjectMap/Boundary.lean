import BridleModel.Library.Tally
import BridleModel.ProjectMap.Synthesis
import BridleModel.Python.Lines

-- What the history of the files says about the boundaries of the modules
namespace ProjectMap.Boundary

open Python

section History

-- A line that names a commit. No other characters than these become hexadecimal digits in lower case.
def isCommitLine (line : List Char) : Bool :=
  line.length = 40 ∧ line.all fun c => (hexValue c).isSome

-- `line.strip().replace("\\", "/")`
def entryOf (line : List Char) : String :=
  String.ofList <| (stripChars line).map fun c => if c = '\\' then '/' else c

structure Grouping where
  commits : List (List String)
  current : List String

def Grouping.close (grouping : Grouping) : List (List String) :=
  if grouping.current = [] then grouping.commits else grouping.commits ++ [grouping.current]

def Grouping.read (grouping : Grouping) (line : List Char) : Grouping :=
  if isCommitLine line then
    { commits := grouping.close, current := [] }
  else if stripChars line = [] then
    grouping
  else
    { grouping with current := grouping.current ++ [entryOf line] }

-- The files of the commits in the output of `git log`
def commitsOf (output : List Char) : List (List String) :=
  ((splitlines output).foldl Grouping.read { commits := [], current := [] }).close

end History

section Cochange

structure CochangeRow where
  pathA   : String
  pathB   : String
  coCount : Nat
  supA    : Nat
  supB    : Nat
  weight  : ℚ
deriving DecidableEq

-- `sorted(set(files))`
def unique (files : List String) : List String :=
  files.dedup.insertionSort (· ≤ ·)

-- `_pair_key`
def pairKey (a b : String) : String × String :=
  if a < b then (a, b) else (b, a)

def pairs : List String → List (String × String)
  | []         => []
  | a :: files => files.map (pairKey a) ++ pairs files

def coCounts (commits : List (List String)) : List ((String × String) × Nat) :=
  Tally.tally (commits.flatMap fun files => pairs (unique files))

def support (commits : List (List String)) : List (String × Nat) :=
  Tally.tally (commits.flatMap unique)

def cochangeRow (sup : List (String × Nat)) (item : (String × String) × Nat) : CochangeRow :=
  let sa := Tally.count sup item.fst.fst
  let sb := Tally.count sup item.fst.snd
  let denom : Int := sa + sb - item.snd
  {
    pathA   := item.fst.fst
    pathB   := item.fst.snd
    coCount := item.snd
    supA    := sa
    supB    := sb
    weight  := if denom = 0 then 0 else (item.snd : ℚ) / denom
  }

-- `refresh_cochange`: the table afterwards and the number of its pairs. Without an output of `git` nothing happens.
def refreshCochange (output : Option String) (rows : List CochangeRow) : List CochangeRow × Nat :=
  match output with
  | none        => (rows, 0)
  | some output =>
    let commits := commitsOf output.toList
    let counts := coCounts commits
    (counts.map (cochangeRow (support commits)), counts.length)

end Cochange

section Conflicts

structure Conflict where
  pathA   : String
  pathB   : String
  moduleA : String
  moduleB : String
  weight  : ℚ
deriving DecidableEq

def conflict? (row : CochangeRow) : Option Conflict :=
  let moduleA := moduleForPath row.pathA
  let moduleB := moduleForPath row.pathB
  if moduleA = moduleB then
    none
  else
    some { pathA := row.pathA, pathB := row.pathB, moduleA, moduleB, weight := row.weight }

-- `list_boundary_conflicts` of the rows in the order in which `ORDER BY weight DESC` lists them
def listBoundaryConflicts (limit : Nat) (listed : List CochangeRow) : List Conflict :=
  ((listed.take (max 1 (min limit 50))).filterMap conflict?).take limit

-- `debt_node_ids`
def debtNodeIds (threshold : ℚ) (listed : List CochangeRow) : List String :=
  ((listBoundaryConflicts 20 listed).filter (threshold ≤ ·.weight)).map fun item =>
    "debt:" ++ item.pathA ++ ":" ++ item.pathB

-- Rows of one weight come in any order.
structure Listed (rows listed : List CochangeRow) : Prop where
  perm   : listed.Perm rows
  sorted : listed.Pairwise fun a b => b.weight ≤ a.weight

end Conflicts
end ProjectMap.Boundary
