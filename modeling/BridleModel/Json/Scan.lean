import BridleModel.Json
import BridleModel.Python.Text

open Python

namespace Json

section Scan

def isSpace (c : Char) : Bool :=
  c = ' ' ∨ c = '\t' ∨ c = '\n' ∨ c = '\r'

def skip (cs : List Char) : List Char :=
  cs.dropWhile isSpace

def readHex : List Char → Option (Nat × List Char)
  | a :: b :: c :: d :: cs =>
    match hexValue a, hexValue b, hexValue c, hexValue d with
    | some a, some b, some c, some d => some (((a * 16 + b) * 16 + c) * 16 + d, cs)
    | _, _, _, _                     => none
  | _ => none

-- A text of Lean holds no lone surrogate.
def readUnicode (cs : List Char) : Option (Char × List Char) :=
  match readHex cs with
  | none         => none
  | some (n, cs) =>
    if 0xd800 ≤ n ∧ n ≤ 0xdbff then
      match cs with
      | '\\' :: 'u' :: cs =>
        match readHex cs with
        | none         => none
        | some (m, cs) =>
          if 0xdc00 ≤ m ∧ m ≤ 0xdfff then
            some (Char.ofNat (0x10000 + (n - 0xd800) * 0x400 + (m - 0xdc00)), cs)
          else
            none
      | _ => none
    else if 0xdc00 ≤ n ∧ n ≤ 0xdfff then
      none
    else
      some (Char.ofNat n, cs)

def readEscape : List Char → Option (Char × List Char)
  | '"' :: cs  => some ('"', cs)
  | '\\' :: cs => some ('\\', cs)
  | '/' :: cs  => some ('/', cs)
  | 'b' :: cs  => some (Char.ofNat 0x08, cs)
  | 'f' :: cs  => some (Char.ofNat 0x0c, cs)
  | 'n' :: cs  => some ('\n', cs)
  | 'r' :: cs  => some ('\r', cs)
  | 't' :: cs  => some ('\t', cs)
  | 'u' :: cs  => readUnicode cs
  | _          => none

def readChar : List Char → Option (Char × List Char)
  | []         => none
  | '\\' :: cs => readEscape cs
  | c :: cs    => if c.toNat < 0x20 then none else some (c, cs)

-- What follows the opening quote of a string.
def scanString : Nat → List Char → Option (List Char × List Char)
  | 0, _              => none
  | _ + 1, '"' :: cs  => some ([], cs)
  | fuel + 1, cs      =>
    match readChar cs with
    | none         => none
    | some (c, cs) => (scanString fuel cs).map fun (s, cs) => (c :: s, cs)

def scanNat (cs : List Char) : Option (Nat × List Char) :=
  let digits := cs.takeWhile (·.isDigit)
  let cs := cs.dropWhile (·.isDigit)
  if digits = [] ∨ (digits.head? = some '0' ∧ digits ≠ ['0']) then
    none
  else if cs.head? = some '.' ∨ cs.head? = some 'e' ∨ cs.head? = some 'E' then
    none
  else
    some (Nat.ofDigitChars 10 digits 0, cs)

-- An integer. The model has no floats.
def scanNumber : List Char → Option (Json × List Char)
  | '-' :: cs => (scanNat cs).map fun (n, cs) => (num (-n), cs)
  | cs        => (scanNat cs).map fun (n, cs) => (num n, cs)

mutual

-- A call at `cs` takes less fuel than twice the length of `cs`.
def scanValue : Nat → List Char → Option (Json × List Char)
  | 0, _                                      => none
  | fuel + 1, '"' :: cs                       =>
    (scanString fuel cs).map fun (s, cs) => (str (.ofList s), cs)
  | fuel + 1, '[' :: cs                       =>
    match skip cs with
    | ']' :: cs => some (arr [], cs)
    | cs        => (scanItems fuel cs).map fun (items, cs) => (arr items, cs)
  | fuel + 1, '\x7b' :: cs                    =>
    match skip cs with
    | '\x7d' :: cs => some (obj [], cs)
    | cs           => (scanFields fuel cs).map fun (fields, cs) => (obj fields, cs)
  | _ + 1, 'n' :: 'u' :: 'l' :: 'l' :: cs        => some (null, cs)
  | _ + 1, 't' :: 'r' :: 'u' :: 'e' :: cs        => some (bool true, cs)
  | _ + 1, 'f' :: 'a' :: 'l' :: 's' :: 'e' :: cs => some (bool false, cs)
  | _ + 1, cs                                 => scanNumber cs

def scanItems : Nat → List Char → Option (List Json × List Char)
  | 0, _         => none
  | fuel + 1, cs =>
    match scanValue fuel cs with
    | none             => none
    | some (value, cs) =>
      match skip cs with
      | ']' :: cs => some ([value], cs)
      | ',' :: cs => (scanItems fuel (skip cs)).map fun (items, cs) => (value :: items, cs)
      | _         => none

def scanFields : Nat → List Char → Option (List (String × Json) × List Char)
  | fuel + 1, '"' :: cs =>
    match scanString fuel cs with
    | none           => none
    | some (key, cs) =>
      match skip cs with
      | ':' :: cs =>
        match scanValue fuel (skip cs) with
        | none             => none
        | some (value, cs) =>
          match skip cs with
          | '\x7d' :: cs => some ([(.ofList key, value)], cs)
          | ',' :: cs    =>
            (scanFields fuel (skip cs)).map fun (fields, cs) => ((.ofList key, value) :: fields, cs)
          | _            => none
      | _ => none
  | _, _ => none

end

-- The value of a text, with repeated keys as they stand.
def scan (text : String) : Option Json :=
  match scanValue (2 * text.toList.length) (skip text.toList) with
  | none             => none
  | some (value, cs) => if skip cs = [] then some value else none

end Scan

section Dict

mutual

-- Of fields with one key a dict keeps the last value, in the place of the first.
def dict : Json → Json
  | arr items  => arr (dictItems items)
  | obj fields => obj ((dictFields fields).foldl (fun d field => Dict.set d field.fst field.snd) [])
  | null       => null
  | bool b     => bool b
  | num n      => num n
  | str s      => str s

def dictItems : List Json → List Json
  | []       => []
  | hd :: tl => dict hd :: dictItems tl

def dictFields : List (String × Json) → List (String × Json)
  | []              => []
  | (key, hd) :: tl => (key, dict hd) :: dictFields tl

end

-- `json.loads`
def loads (text : String) : Option Json :=
  (scan text).map dict

mutual

-- The values that Python can hold: the keys of a dict are distinct.
def Distinct : Json → Prop
  | arr items  => DistinctItems items
  | obj fields => (fields.map (·.fst)).Nodup ∧ DistinctFields fields
  | _          => True

def DistinctItems : List Json → Prop
  | []       => True
  | hd :: tl => Distinct hd ∧ DistinctItems tl

def DistinctFields : List (String × Json) → Prop
  | []           => True
  | (_, hd) :: tl => Distinct hd ∧ DistinctFields tl

end

end Dict
end Json
