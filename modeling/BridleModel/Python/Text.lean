import Mathlib.Data.List.DropRight

namespace Python

-- `str.isspace` of one character.
def isSpace (c : Char) : Bool :=
  let n := c.toNat
  (0x09 ≤ n ∧ n ≤ 0x0d) ∨ (0x1c ≤ n ∧ n ≤ 0x20) ∨ n = 0x85 ∨ n = 0xa0 ∨ n = 0x1680 ∨
    (0x2000 ≤ n ∧ n ≤ 0x200a) ∨ n = 0x2028 ∨ n = 0x2029 ∨ n = 0x202f ∨ n = 0x205f ∨ n = 0x3000

-- `str.strip()`
def strip (text : String) : String :=
  String.ofList <| ((text.toList.dropWhile isSpace).reverse.dropWhile isSpace).reverse

example : strip "  test files changed\n" = "test files changed" := by decide

theorem strip_strip {text : String} : strip (strip text) = strip text := by
  let cs := text.toList.dropWhile isSpace
  have hp : cs.rdropWhile isSpace <+: cs := List.rdropWhile_prefix isSpace cs
  have hd : (cs.rdropWhile isSpace).dropWhile isSpace = cs.rdropWhile isSpace := by
    cases hr : cs.rdropWhile isSpace with
    | nil       => rfl
    | cons d ds =>
      have ⟨es, he⟩ := hr ▸ hp
      have hh : isSpace d = false := by
        have hn := List.head?_dropWhile_not isSpace text.toList
        rw [show text.toList.dropWhile isSpace = d :: ds ++ es from he.symm] at hn
        exact hn
      rw [List.dropWhile_cons_of_neg (by simp [hh])]
  change String.ofList ((((String.ofList (cs.rdropWhile isSpace)).toList).dropWhile isSpace).rdropWhile
    isSpace) = String.ofList (cs.rdropWhile isSpace)
  rw [String.toList_ofList, hd, List.rdropWhile_idempotent]

theorem strip_eq_self {text : String} (hh : text.toList.head?.all (!isSpace ·) = true)
    (hl : text.toList.getLast?.all (!isSpace ·) = true) : strip text = text := by
  have hd : ∀ cs : List Char, cs.head?.all (!isSpace ·) = true → cs.dropWhile isSpace = cs := by
    intro cs h
    cases cs with
    | nil       => rfl
    | cons c cs => exact List.dropWhile_cons_of_neg (by simpa using h)
  rw [strip, hd _ hh, hd _ (by rw [List.head?_reverse]; exact hl), List.reverse_reverse, String.ofList_toList]

-- `int(c, 16)` of a hexadecimal digit.
def hexValue (c : Char) : Option Nat :=
  if c.isDigit then
    some (c.toNat - '0'.toNat)
  else if 'A' ≤ c ∧ c ≤ 'F' then
    some (c.toNat - 'A'.toNat + 10)
  else if 'a' ≤ c ∧ c ≤ 'f' then
    some (c.toNat - 'a'.toNat + 10)
  else
    none

end Python
