import Mathlib.Data.List.Sort
import Mathlib.Data.String.Basic

inductive Json
  | null
  | bool (b : Bool)
  | num (n : Int)
  | str (s : String)
  | arr (items : List Json)
  | obj (fields : List (String × Json))
deriving Repr

namespace Json

-- A Python dict with string keys in insertion order.
abbrev Dict :=
  List (String × Json)

namespace Dict

variable {d : Dict} {key key' : String} {value : Json}

def get (d : Dict) (key : String) : Option Json :=
  (d.find? (·.fst = key)).map (·.snd)

-- `d[key] = value`: an existing key keeps its place.
def set : Dict → String → Json → Dict
  | [], key, value      => [(key, value)]
  | hd :: tl, key, value => if hd.fst = key then (key, value) :: tl else hd :: set tl key value

def erase (d : Dict) (key : String) : Dict :=
  d.filter (·.fst ≠ key)

theorem get_set_self : (d.set key value).get key = some value := by
  induction d
  case nil => simp [set, get]
  case cons hd tl hi =>
    by_cases h : hd.fst = key
    case pos => simp [set, get, h]
    case neg => simpa [set, get, h] using hi

theorem get_set_of_ne (h : key' ≠ key) : (d.set key value).get key' = d.get key' := by
  induction d
  case nil => simp [set, get, h.symm]
  case cons hd tl hi =>
    by_cases hk : hd.fst = key
    case pos => simp [set, get, hk, h.symm]
    case neg =>
      by_cases hk' : hd.fst = key'
      case pos => simp [set, get, hk', h]
      case neg => simpa [set, get, hk, hk'] using hi

end Dict

def ofOption : Option String → Json
  | none   => null
  | some s => str s

section Dumps

def hexDigit (n : Nat) : Char :=
  Char.ofNat <| if n < 10 then '0'.toNat + n else 'a'.toNat + (n - 10)

-- The escapes of `json.dumps(ensure_ascii=False)`.
def escape (c : Char) : List Char :=
  if c = '"' then ['\\', '"']
  else if c = '\\' then ['\\', '\\']
  else if c = '\n' then ['\\', 'n']
  else if c = '\r' then ['\\', 'r']
  else if c = '\t' then ['\\', 't']
  else if c.toNat = 0x08 then ['\\', 'b']
  else if c.toNat = 0x0c then ['\\', 'f']
  else if c.toNat < 0x20 then
    ['\\', 'u', '0', '0', hexDigit (c.toNat / 16), hexDigit (c.toNat % 16)]
  else [c]

def quote (s : String) : String :=
  String.ofList <| ['"'] ++ s.toList.flatMap escape ++ ['"']

def joined (fields : List (String × String)) : List String :=
  (fields.insertionSort (·.fst ≤ ·.fst)).map fun field => quote field.fst ++ ":" ++ field.snd

mutual

-- `json.dumps(value, ensure_ascii=False, sort_keys=True, separators=(",", ":"))`
def dumps : Json → String
  | null       => "null"
  | bool true  => "true"
  | bool false => "false"
  | num n      => toString n
  | str s      => quote s
  | arr items  => "[" ++ ",".intercalate (dumpsItems items) ++ "]"
  | obj fields => "\x7b" ++ ",".intercalate (joined (dumpsFields fields)) ++ "\x7d"

def dumpsItems : List Json → List String
  | []       => []
  | hd :: tl => dumps hd :: dumpsItems tl

def dumpsFields : List (String × Json) → List (String × String)
  | []              => []
  | (key, hd) :: tl => (key, dumps hd) :: dumpsFields tl

end

end Dumps

-- `str(value or "")` of a value in a JSON object.
def textOrEmpty : Option Json → String
  | some (bool true) => "True"
  | some (num n)     => if n = 0 then "" else toString n
  | some (str s)     => s
  | _                => ""

end Json
