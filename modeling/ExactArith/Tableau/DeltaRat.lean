set_option autoImplicit false
set_option relaxedAutoImplicit false

/-!
# Rationals with an infinitesimal part

A strict bound `x < b` on a rational number is the weak bound `x ≤ b - δ` for a positive `δ` that is
smaller than every number that matters. Bounds and values are therefore kept as pairs `r + d · δ`,
and `δ` gets a concrete value only when a solution has been found.

## Main definitions

* `ExactArith.DeltaRat` — the pairs, with their lexicographic order.
* `ExactArith.DeltaRat.evalAt` — the rational number for a concrete `δ`.
-/

namespace ExactArith

/-- The number `real + delta · δ` for an infinitesimal `δ > 0`. -/
structure DeltaRat where
  /-- The rational part. -/
  real : Rat
  /-- The factor of the infinitesimal. -/
  delta : Rat
  deriving DecidableEq

namespace DeltaRat

instance : Zero DeltaRat := ⟨⟨0, 0⟩⟩

instance : Inhabited DeltaRat := ⟨0⟩

instance : Add DeltaRat := ⟨fun a b => ⟨a.real + b.real, a.delta + b.delta⟩⟩

instance : Sub DeltaRat := ⟨fun a b => ⟨a.real - b.real, a.delta - b.delta⟩⟩

instance : HMul Rat DeltaRat DeltaRat := ⟨fun c a => ⟨c * a.real, c * a.delta⟩⟩

/-- The rational parts decide, and the infinitesimal parts where those are equal. -/
instance : LT DeltaRat := ⟨fun a b => a.real < b.real ∨ a.real = b.real ∧ a.delta < b.delta⟩

instance (a b : DeltaRat) : Decidable (a < b) :=
  inferInstanceAs (Decidable (a.real < b.real ∨ a.real = b.real ∧ a.delta < b.delta))

/-- One pair is at most another if it is not greater. -/
instance : LE DeltaRat := ⟨fun a b => ¬b < a⟩

instance (a b : DeltaRat) : Decidable (a ≤ b) := inferInstanceAs (Decidable ¬b < a)

/-- The rational number that results from a concrete `δ`. -/
def evalAt (a : DeltaRat) (δ : Rat) : Rat := a.real + a.delta * δ

end DeltaRat

end ExactArith
