import Std.Data.ExtTreeMap

set_option autoImplicit false
set_option relaxedAutoImplicit false

/-!
# Linear combinations

Finite sums `Σ aₖ · k` with rational coefficients over indices of an ordered type. An index whose
coefficient becomes zero is dropped, so a combination that is built by the operations of this file
from single indices stores no zero coefficient, and equal sums are equal combinations.

## Main definitions

* `ExactArith.LinComb` — the combinations, and `ExactArith.LinComb.coeff` to look into one.
* `ExactArith.LinComb.addScaled`, `ExactArith.LinComb.scale` — their operations.
* `ExactArith.LinComb.value` — the sum when each index stands for a value.

## Main results

* `ExactArith.LinComb.coeff_addAt` and its neighbours — what each operation does to the
  coefficients.
-/

namespace ExactArith

/-- A linear combination of indices of type `κ`. -/
structure LinComb (κ : Type) [Ord κ] where
  /-- The stored coefficients. -/
  coeffs : Std.ExtTreeMap κ Rat compare

namespace LinComb

variable {κ : Type} [Ord κ]

instance [Std.TransOrd κ] [Std.LawfulEqOrd κ] : DecidableEq (LinComb κ) := fun r s =>
  decidable_of_iff (r.coeffs = s.coeffs)
    ⟨fun h => by cases r; cases s; simpa using h, fun h => h ▸ rfl⟩

/-- The empty sum. -/
def zero : LinComb κ := ⟨∅⟩

instance : EmptyCollection (LinComb κ) := ⟨zero⟩

/-- Whether nothing is stored. -/
def isEmpty (r : LinComb κ) : Bool := r.coeffs.isEmpty

variable [Std.TransOrd κ]

/-- The index `k` taken once. -/
def single (k : κ) : LinComb κ := ⟨Std.ExtTreeMap.empty.insert k 1⟩

/-- The coefficient of an index, zero if none is stored. -/
def coeff (r : LinComb κ) (k : κ) : Rat := r.coeffs.getD k 0

/-- The stored indices with their coefficients, in the order of the indices. -/
def toList (r : LinComb κ) : List (κ × Rat) := r.coeffs.toList

/-- The stored indices in their order. -/
def support (r : LinComb κ) : List κ := r.coeffs.keys

/-- Adds `a · k` to a combination. -/
def addAt (r : LinComb κ) (k : κ) (a : Rat) : LinComb κ :=
  ⟨r.coeffs.alter k fun stored =>
    let sum := stored.getD 0 + a
    if sum = 0 then none else some sum⟩

/-- Adds `factor · s` to `r`. -/
def addScaled (r : LinComb κ) (factor : Rat) (s : LinComb κ) : LinComb κ :=
  s.coeffs.foldl (fun r k a => r.addAt k (factor * a)) r

/-- Multiplies every coefficient. The factor should not be zero, see `LinearForm.scaled`. -/
def scale (r : LinComb κ) (factor : Rat) : LinComb κ := ⟨r.coeffs.map fun _ a => a * factor⟩

/-- Drops an index. -/
def erase (r : LinComb κ) (k : κ) : LinComb κ := ⟨r.coeffs.erase k⟩

/-- Gives an index the coefficient `a`. -/
def set (r : LinComb κ) (k : κ) (a : Rat) : LinComb κ := ⟨r.coeffs.insert k a⟩

/-- The sum of the coefficients times the values of their indices. -/
def value (r : LinComb κ) (point : κ → Rat) : Rat :=
  r.coeffs.foldl (fun sum k a => sum + a * point k) 0

/-! ## Coefficients -/

@[simp] theorem coeff_zero (k : κ) : (zero : LinComb κ).coeff k = 0 := rfl

variable [Std.LawfulEqOrd κ] [DecidableEq κ]

theorem coeff_single (k j : κ) : (single k).coeff j = if k = j then 1 else 0 := by
  simp only [single, coeff, Std.ExtTreeMap.getD_insert, Std.compare_eq_iff_eq]
  split <;> rfl

/-- Adding at an index changes the coefficient of that index only. -/
theorem coeff_addAt (r : LinComb κ) (k j : κ) (a : Rat) :
    (r.addAt k a).coeff j = if k = j then r.coeff k + a else r.coeff j := by
  simp only [addAt, coeff, Std.ExtTreeMap.getD_alter, Std.compare_eq_iff_eq]
  split
  · rw [Std.ExtTreeMap.getD_eq_getD_getElem?]
    split <;> simp_all
  · rfl

theorem coeff_erase (r : LinComb κ) (k j : κ) :
    (r.erase k).coeff j = if k = j then 0 else r.coeff j := by
  simp only [erase, coeff, Std.ExtTreeMap.getD_erase, Std.compare_eq_iff_eq]

theorem coeff_set (r : LinComb κ) (k j : κ) (a : Rat) :
    (r.set k a).coeff j = if k = j then a else r.coeff j := by
  simp only [set, coeff, Std.ExtTreeMap.getD_insert, Std.compare_eq_iff_eq]

end LinComb

end ExactArith
