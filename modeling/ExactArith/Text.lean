set_option autoImplicit false
set_option relaxedAutoImplicit false

/-!
# Texts of numbers and names

What the characters of an input mean. Blanks, the characters with the Unicode property
*White_Space*, may surround a number: inputs are arbitrary Unicode text, so the class is the full
one and not only its ASCII part. A symbol may carry any name, but a checked symbol carries an
*identifier*: an ASCII letter or an underscore, followed by ASCII letters, digits, underscores and
primes.

## Main definitions

* `ExactArith.Text.isBlank`, `ExactArith.Text.trim` — blanks, and a text without those at its ends.
* `ExactArith.Identifier.check` — the check of an identifier, with its reason on failure.
* `ExactArith.NameError` — why a text is no identifier.
-/

namespace ExactArith

/-! ## Blanks -/

namespace Text

/-- The ranges of code points, both ends included, that make up *White_Space*. -/
def blankRanges : List (Nat × Nat) :=
  [(0x0009, 0x000D), (0x0020, 0x0020), (0x0085, 0x0085), (0x00A0, 0x00A0), (0x1680, 0x1680),
    (0x2000, 0x200A), (0x2028, 0x2029), (0x202F, 0x202F), (0x205F, 0x205F), (0x3000, 0x3000)]

/-- Whether a character is blank. -/
def isBlank (c : Char) : Bool :=
  blankRanges.any fun range => range.1 ≤ c.toNat && c.toNat ≤ range.2

/-- A text without its leading and trailing blanks. -/
def trim (cs : List Char) : List Char :=
  ((cs.dropWhile isBlank).reverse.dropWhile isBlank).reverse

/-- The class holds twenty-five characters. -/
example : (blankRanges.map fun range => range.2 + 1 - range.1).sum = 25 := by decide

end Text

/-! ## Identifiers -/

/-- Why a text is refused as the name of a symbol. -/
inductive NameError where
  /-- The text is empty. -/
  | empty
  /-- The text holds a character that an identifier may not have at that place. -/
  | notIdentifier (name : String)
  deriving DecidableEq

/-- The wording of a refusal. -/
def NameError.message : NameError → String
  | .empty => "Symbol name cannot be empty"
  | .notIdentifier name => "Symbol name must be an identifier: " ++ name

namespace Identifier

/-- Characters that begin an identifier. `Char.isAlpha` knows ASCII only, as is wanted here. -/
def isStart (c : Char) : Bool := c.isAlpha || c == '_'

/-- Characters that continue an identifier. -/
def isRest (c : Char) : Bool := c.isAlphanum || c == '_' || c == '\''

/-- Accepts identifiers and gives the reason for refusing any other text. -/
def check (name : String) : Except NameError Unit :=
  match name.toList with
  | [] => .error .empty
  | first :: rest =>
    if isStart first && rest.all isRest then .ok () else .error (.notIdentifier name)

end Identifier

end ExactArith
