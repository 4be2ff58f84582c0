import Mathlib.Data.Finset.Sort
import Mathlib.Data.String.Basic

-- The order and the equality of texts, as instances of their own that every search finds first.
namespace Orders

instance le_trans : IsTrans String fun a b => a ≤ b :=
  inferInstance

instance le_antisymm : Std.Antisymm fun a b : String => a ≤ b :=
  inferInstance

instance le_total : Std.Total fun a b : String => a ≤ b :=
  inferInstance

instance beq_chars : LawfulBEq (List Char) :=
  inferInstance

end Orders
