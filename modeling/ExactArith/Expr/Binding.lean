import ExactArith.Expr.Basic
import Std.Data.ExtTreeMap

set_option autoImplicit false
set_option relaxedAutoImplicit false

/-!
# Bindings

A binding replaces symbols by expressions. It goes by name, so all symbols of one name have the
same replacement, and a replacement may mention further symbols of the binding, itself included.

## Main definitions

* `ExactArith.Binding` — finite maps from names to replacements.
* `ExactArith.Binding.insert`, `erase`, `get?`, `insertAll` — the operations on them.
-/

namespace ExactArith

/-- A finite map from names to the expressions that replace them. -/
structure Binding where
  /-- The replacements by name. -/
  entries : Std.ExtTreeMap String Expr compare
  deriving DecidableEq

namespace Binding

/-- The binding that replaces nothing. -/
def empty : Binding := ⟨∅⟩

instance : EmptyCollection Binding := ⟨empty⟩

/-- The replacement of a name. -/
def get? (b : Binding) (name : String) : Option Expr := b.entries[name]?

/-- Whether a name has a replacement. -/
def contains (b : Binding) (name : String) : Bool := b.entries.contains name

/-- Gives a name a replacement, in place of the one it may have had. -/
def insert (b : Binding) (name : String) (replacement : Expr) : Binding :=
  ⟨b.entries.insert name replacement⟩

/-- Takes the replacement of a name away. -/
def erase (b : Binding) (name : String) : Binding := ⟨b.entries.erase name⟩

/-- Inserts entries in their order, so that the last entry of a name wins. -/
def insertAll (b : Binding) (entries : List (String × Expr)) : Binding :=
  entries.foldl (fun b entry => b.insert entry.1 entry.2) b

/-- The binding with the given entries, the last one of a name winning. -/
def ofList (entries : List (String × Expr)) : Binding := empty.insertAll entries

/-- The entries in the order of their names. -/
def toList (b : Binding) : List (String × Expr) := b.entries.toList

/-- The bound names in their order. -/
def names (b : Binding) : List String := b.entries.keys

/-- The number of bound names. -/
def size (b : Binding) : Nat := b.entries.size

/-- Whether nothing is bound. -/
def isEmpty (b : Binding) : Bool := b.entries.isEmpty

/-- A name that has a replacement is among the bound names. -/
theorem mem_names_of_get? {b : Binding} {name : String} {replacement : Expr}
    (h : b.get? name = some replacement) : name ∈ b.names := by
  rw [names, Std.ExtTreeMap.mem_keys]
  exact Std.ExtTreeMap.mem_iff_isSome_getElem?.2 (by rw [get?] at h; rw [h]; rfl)

theorem get?_insert (b : Binding) (name other : String) (replacement : Expr) :
    (b.insert name replacement).get? other =
      if name = other then some replacement else b.get? other := by
  simp only [insert, get?, Std.ExtTreeMap.getElem?_insert, Std.compare_eq_iff_eq]

theorem get?_erase (b : Binding) (name other : String) :
    (b.erase name).get? other = if name = other then none else b.get? other := by
  simp only [erase, get?, Std.ExtTreeMap.getElem?_erase, Std.compare_eq_iff_eq]

end Binding

end ExactArith
