import ExactArith.Expr.Operator
import ExactArith.Number.Numeral

set_option autoImplicit false
set_option relaxedAutoImplicit false

/-!
# Constants

The ways in which a constant of an expression is given: by a numeral, by two integers, or by a
64-bit binary floating-point word with one sign bit, eleven exponent bits and fifty-two fraction
bits. A constant is a rational number, so each way ends in one, and no rounding takes place.

## Main definitions

* `ExactArith.Binary64` — the reading of a word: a rational, an infinity or not a number.
* `ExactArith.Binary64.ofBits` — how the word is read.
* `ExactArith.Constant.ofText`, `ExactArith.Constant.ofRatio`, `ExactArith.Constant.ofWord` — the
  three ways.
-/

namespace ExactArith

/-! ## Binary floating-point words -/

/-- What a floating-point word stands for. -/
inductive Binary64 where
  /-- A rational number; both zeros give `0`. -/
  | finite (value : Rat)
  /-- An infinity of the given sign. -/
  | infinite (negative : Bool)
  /-- No number at all. -/
  | nan
  deriving DecidableEq

namespace Binary64

/-- The value `m · 2 ^ e`. -/
def scaled (m e : Int) : Rat :=
  if 0 ≤ e then (m * (Nat.pow 2 e.toNat : Nat) : Int) else mkRat m (Nat.pow 2 (-e).toNat)

/-- Reads a word by its fields: the sign, eleven bits of exponent and fifty-two of fraction. With
an exponent field of zero the number is subnormal: it has no hidden bit and the same exponent as
the smallest normal numbers. -/
def ofBits (word : UInt64) : Binary64 :=
  let negative := word >>> 63 == 1
  let exponent := (word >>> 52 &&& 0x7FF).toNat
  let fraction := (word &&& 0xFFFFFFFFFFFFF).toNat
  if exponent = 0x7FF then
    if fraction = 0 then .infinite negative else .nan
  else
    let significand := if exponent = 0 then fraction else fraction + 0x10000000000000
    let signed : Int := if negative then -significand else significand
    .finite (scaled signed ((max exponent 1 : Nat) - 1075))

end Binary64

/-! ## The three ways -/

namespace Constant

/-- The constant that a numeral denotes. -/
def ofText (text : String) : Except ExprError Rat :=
  (Numeral.read text).mapError fun _ => .invalidConstant text

/-- The quotient of two integers. -/
def ofRatio (numerator denominator : Int) : Except ExprError Rat :=
  if denominator = 0 then
    .error (.invalidConstant (numerator.repr ++ "/" ++ denominator.repr))
  else
    .ok (numerator / denominator)

/-- The exact value of a binary floating-point word. -/
def ofWord (word : UInt64) : Except ExprError Rat :=
  match Binary64.ofBits word with
  | .finite value => .ok value
  | .infinite negative => .error (.invalidConstant (if negative then "-inf" else "inf"))
  | .nan => .error (.invalidConstant "NaN")

end Constant

end ExactArith
