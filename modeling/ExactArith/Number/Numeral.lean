import ExactArith.Text

set_option autoImplicit false
set_option relaxedAutoImplicit false

/-!
# Numerals

The written form of exact rational numbers. Three shapes are read: an integer (`-7`), a fraction
of two integers (`-5/2`, blanks allowed around the bar) and a finite decimal (`1.25`, where one of
the two digit strings may be empty). One shape is written: the integer, or the fraction in lowest
terms with a positive denominator.

## Main definitions

* `ExactArith.Numeral.read` — the number a text denotes.
* `ExactArith.Numeral.write` — the text of a number.
* `ExactArith.NumberError` — the refusal of a text that denotes none.
-/

namespace ExactArith

/-- A text denotes no rational number; the text is kept as it was given, blanks included. -/
inductive NumberError where
  /-- The text that was refused. -/
  | notRational (text : String)
  deriving DecidableEq

/-- The wording of a refusal. -/
def NumberError.message : NumberError → String
  | .notRational text => "Not a rational number: " ++ text

namespace Numeral

/-! ## Reading -/

/-- What is wrong with a text that denotes no number. -/
inductive Fault where
  /-- It has none of the three shapes. -/
  | malformed
  /-- It is a fraction of two integers, the second of which is zero. -/
  | zeroDenominator
  deriving DecidableEq

/-- An optional sign: whether it is a minus, and the text after it. -/
def splitSign : List Char → Bool × List Char
  | '-' :: rest => (true, rest)
  | '+' :: rest => (false, rest)
  | cs => (false, cs)

/-- The parts of a text before and after the first occurrence of `mark`, if there is one. -/
def splitAt? (mark : Char) (cs : List Char) : Option (List Char × List Char) :=
  if mark ∈ cs then
    some (cs.takeWhile (· != mark), (cs.dropWhile (· != mark)).tail)
  else
    none

/-- Whether a text consists of ASCII digits only. -/
def allDigits (cs : List Char) : Bool := cs.all Char.isDigit

/-- An integer: an optional sign and at least one digit. -/
def integer? (cs : List Char) : Option Int :=
  let (negative, digits) := splitSign cs
  if digits.isEmpty || !allDigits digits then
    none
  else
    let magnitude : Int := Nat.ofDigitChars 10 digits 0
    some (if negative then -magnitude else magnitude)

/-- A decimal with the text `whole` before its point and `fraction` after it. The sign stands for
the whole number, so it also counts when the digits before the point are zero or missing. -/
def decimal? (whole fraction : List Char) : Option Rat :=
  let (negative, whole) := splitSign whole
  if (whole.isEmpty && fraction.isEmpty) || !allDigits whole || !allDigits fraction then
    none
  else
    let magnitude := mkRat (Nat.ofDigitChars 10 (whole ++ fraction) 0) (Nat.pow 10 fraction.length)
    some (if negative then -magnitude else magnitude)

/-- A fraction with the text `above` before its bar and `below` after it. -/
def fraction (above below : List Char) : Except Fault Rat :=
  match integer? (Text.trim above), integer? (Text.trim below) with
  | some numerator, some denominator =>
    if denominator = 0 then .error .zeroDenominator
    else .ok (numerator / denominator)
  | _, _ => .error .malformed

/-- The number that a trimmed text denotes. A bar makes it a fraction, even when it also holds a
point; else a point makes it a decimal. -/
def parse (cs : List Char) : Except Fault Rat :=
  match splitAt? '/' cs with
  | some (above, below) => fraction above below
  | none =>
    match splitAt? '.' cs with
    | some (whole, fraction) =>
      match decimal? whole fraction with
      | some value => .ok value
      | none => .error .malformed
    | none =>
      match integer? cs with
      | some value => .ok value
      | none => .error .malformed

/-- The number that a text denotes, with the fault of a text that denotes none. -/
def diagnose (text : String) : Except Fault Rat := parse (Text.trim text.toList)

/-- The number that a text denotes, blanks around it ignored. -/
def read (text : String) : Except NumberError Rat :=
  (diagnose text).mapError fun _ => .notRational text

/-! ## Writing -/

/-- The text of a number: its numerator, and its denominator after a bar unless that is one. -/
def write (q : Rat) : String :=
  if q.den = 1 then q.num.repr else q.num.repr ++ "/" ++ q.den.repr

end Numeral

end ExactArith
