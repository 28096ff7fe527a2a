import ExactArith.Expr.Binding

set_option autoImplicit false
set_option relaxedAutoImplicit false

/-!
# Models

A model assigns rational numbers to names. A solver answers with one when its constraints have a
solution, and expressions are evaluated under it as under a binding to constants.

## Main definitions

* `ExactArith.Model` — the assignments, with their text.
* `ExactArith.Model.toBinding` — the binding of each name to its value.
-/

namespace ExactArith

/-- An assignment of rational numbers to finitely many names. -/
structure Model where
  /-- The values by name. -/
  values : Std.ExtTreeMap String Rat compare
  deriving DecidableEq

namespace Model

/-- The model that assigns nothing. -/
def empty : Model := ⟨∅⟩

instance : EmptyCollection Model := ⟨empty⟩

/-- The value of a name. -/
def get? (m : Model) (name : String) : Option Rat := m.values[name]?

/-- Gives a name a value, in place of the one it may have had. -/
def insert (m : Model) (name : String) (value : Rat) : Model := ⟨m.values.insert name value⟩

/-- Gives a name a value unless it has one. -/
def insertIfNew (m : Model) (name : String) (value : Rat) : Model :=
  ⟨m.values.insertIfNew name value⟩

/-- The model with the given values, the last one of a name winning. -/
def ofList (entries : List (String × Rat)) : Model :=
  entries.foldl (fun m entry => m.insert entry.1 entry.2) empty

/-- The values in the order of their names. -/
def toList (m : Model) : List (String × Rat) := m.values.toList

/-- The number of names that have a value. -/
def size (m : Model) : Nat := m.values.size

/-- Whether no name has a value. -/
def isEmpty (m : Model) : Bool := m.values.isEmpty

/-- The model as a function that is zero on all other names. -/
def assignment (m : Model) (name : String) : Rat := m.values.getD name 0

/-- The binding of each name to its value as a constant. -/
def toBinding (m : Model) : Binding := ⟨m.values.map fun _ value => .constant value⟩

/-- The text of a model: its values in the order of their names. -/
def render (m : Model) : String :=
  "[" ++ ", ".intercalate (m.toList.map fun (name, value) => name ++ " = " ++ Numeral.write value)
    ++ "]"

end Model

end ExactArith
