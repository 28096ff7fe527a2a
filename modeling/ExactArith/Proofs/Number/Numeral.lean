import ExactArith.Number.Numeral
import ExactArith.Proofs.Text
import Mathlib.Algebra.Order.Field.Rat
import Mathlib.Data.List.Induction
import Mathlib.Tactic.Tauto

set_option autoImplicit false
set_option relaxedAutoImplicit false

/-!
# The grammar of numerals

What is read as a number is given by a grammar: each of its rules builds a text together with the
number that this text denotes. Reading accepts the texts of the grammar and no others, and it gives
the number that the text denotes. So a text denotes at most one number.

A sign stands at the very front only, of an integer or of a whole decimal. Blanks are ignored at the
ends of the text and around the bar of a fraction, and nowhere else.

## Main definitions

* `ExactArith.Numeral.Digits`, `ExactArith.Numeral.Sign`, `ExactArith.Numeral.Integer` — the parts
  of numerals, with their values.
* `ExactArith.Numeral.Denotes` — the trimmed numerals, with the numbers that they denote.
* `ExactArith.Numeral.IsNumeral` — all numerals, with the numbers that they denote.

## Main results

* `ExactArith.Numeral.integer?_eq_some_iff`, `ExactArith.Numeral.decimal?_eq_some_iff`,
  `ExactArith.Numeral.fraction_eq_ok_iff` — what each of the three shapes is read as.
* `ExactArith.Numeral.denotes_of_parse`, `ExactArith.Numeral.parse_of_denotes` — the reader of
  trimmed texts follows the grammar, and it reads all of it.
* `ExactArith.Numeral.read_eq_iff_isNumeral` — what any text is read as.
-/

namespace ExactArith.Numeral

/-! ## The grammar -/

/-- Strings of ASCII digits with their values. -/
inductive Digits : List Char → ℕ → Prop
  | nil : Digits [] 0
  | snoc {cs : List Char} {n d : ℕ} (init : Digits cs n) (lt : d < 10) :
      Digits (cs ++ [Nat.digitChar d]) (10 * n + d)

/-- Optional signs with their values. -/
inductive Sign : List Char → ℤ → Prop
  | none : Sign [] 1
  | plus : Sign ['+'] 1
  | minus : Sign ['-'] (-1)

/-- Integers: an optional sign and at least one digit. -/
inductive Integer : List Char → ℤ → Prop
  | mk {sign digits : List Char} {s : ℤ} {n : ℕ} (hsign : Sign sign s) (hdigits : Digits digits n)
      (hne : digits ≠ []) : Integer (sign ++ digits) (s * n)

/-- Trimmed numerals with the numbers that they denote. -/
inductive Denotes : List Char → ℚ → Prop
  /-- Two integers around the first bar, blanks around them ignored. The second one is not zero. -/
  | fraction {above below a b : List Char} {n m : ℤ} (hbar : '/' ∉ above)
      (ha : Text.TrimsTo above a) (hb : Text.TrimsTo below b) (hn : Integer a n)
      (hm : Integer b m) (hne : m ≠ 0) : Denotes (above ++ '/' :: below) (n / m)
  /-- An optional sign, and two strings of digits around a point that are not both empty. The digits
  leave no room for a bar or another point. -/
  | decimal {sign whole frac : List Char} {s : ℤ} {n : ℕ} (hsign : Sign sign s)
      (hdigits : Digits (whole ++ frac) n) (hne : whole ++ frac ≠ []) :
      Denotes (sign ++ whole ++ '.' :: frac) (s * n / 10 ^ frac.length)
  /-- An integer, which has neither a bar nor a point. -/
  | integer {cs : List Char} {n : ℤ} (hn : Integer cs n) : Denotes cs n

/-- A text denotes a number if what is left of it without the blanks at its ends does. -/
def IsNumeral (text : String) (q : ℚ) : Prop :=
  ∃ core, Text.TrimsTo text.toList core ∧ Denotes core q

/-! ## Digits and signs -/

variable {cs sign digits whole frac above below : List Char} {s z : ℤ} {n : ℕ} {q : ℚ}
  {mark : Char} {negative : Bool}

lemma allDigits_append :
    allDigits (whole ++ frac) = true ↔ allDigits whole = true ∧ allDigits frac = true := by
  rw [allDigits, List.all_append, Bool.and_eq_true, allDigits, allDigits]

lemma toNat_of_isDigit {c : Char} (hc : c.isDigit = true) : 48 ≤ c.toNat ∧ c.toNat ≤ 57 :=
  Char.isDigit_iff_toNat.1 hc

lemma lt_ten_of_isDigit {c : Char} (hc : c.isDigit = true) : c.toNat - '0'.toNat < 10 := by
  have hbounds := toNat_of_isDigit hc
  change c.toNat - 48 < 10
  omega

lemma digitChar_toNat_sub {c : Char} (hc : c.isDigit = true) :
    Nat.digitChar (c.toNat - '0'.toNat) = c := by
  have hbounds := toNat_of_isDigit hc
  rw [← Char.toNat_inj, Nat.toNat_digitChar_of_lt_ten (lt_ten_of_isDigit hc)]
  change 48 + (c.toNat - 48) = c.toNat
  omega

/-- A string of digits is a string of nothing but digits, and its value is read from the front. -/
lemma digits_iff : Digits cs n ↔ allDigits cs = true ∧ Nat.ofDigitChars 10 cs 0 = n := by
  constructor
  · intro h
    induction h with
    | nil => exact ⟨rfl, rfl⟩
    | @snoc cs n d _ hd ih =>
      obtain ⟨hall, hvalue⟩ := ih
      refine ⟨?_, ?_⟩
      · simpa [allDigits, Nat.isDigit_digitChar] using ⟨by simpa [allDigits] using hall, hd⟩
      · rw [Nat.ofDigitChars_append, hvalue, Nat.ofDigitChars_cons_digitChar_of_lt_ten hd,
          Nat.ofDigitChars_nil]
  · rintro ⟨hall, rfl⟩
    induction cs using List.reverseRecOn with
    | nil => exact .nil
    | append_singleton cs c ih =>
      obtain ⟨hcs, hc⟩ : allDigits cs = true ∧ c.isDigit = true := by
        simpa [allDigits] using hall
      rw [Nat.ofDigitChars_append, Nat.ofDigitChars_cons, Nat.ofDigitChars_nil]
      have hsnoc := Digits.snoc (ih hcs) (lt_ten_of_isDigit hc)
      rwa [digitChar_toNat_sub hc] at hsnoc

/-- The value of a sign that was split off. -/
def signValue (negative : Bool) : ℤ := if negative then -1 else 1

lemma exists_splitSign_eq (cs : List Char) : ∃ sign negative digits,
    cs = sign ++ digits ∧ splitSign cs = (negative, digits) ∧ Sign sign (signValue negative) := by
  fun_cases splitSign cs
  · exact ⟨_, _, _, rfl, rfl, .minus⟩
  · exact ⟨_, _, _, rfl, rfl, .plus⟩
  · exact ⟨[], _, _, rfl, rfl, .none⟩

/-- A sign is split off before digits, since these do not start with one. -/
lemma splitSign_append (hsign : Sign sign s) (hdigits : allDigits digits = true) :
    ∃ negative, splitSign (sign ++ digits) = (negative, digits) ∧ s = signValue negative := by
  cases hsign with
  | minus => exact ⟨true, rfl, rfl⟩
  | plus => exact ⟨false, rfl, rfl⟩
  | none =>
    refine ⟨false, ?_, rfl⟩
    fun_cases splitSign digits
    · simp [allDigits] at hdigits
    · simp [allDigits] at hdigits
    · rfl

/-! ## The three shapes -/

lemma integer?_eq_ite (h : splitSign cs = (negative, digits)) :
    integer? cs = if digits ≠ [] ∧ allDigits digits = true then
      some (signValue negative * Nat.ofDigitChars 10 digits 0) else none := by
  have hcond : (digits.isEmpty || !allDigits digits) = true ↔
      ¬(digits ≠ [] ∧ allDigits digits = true) := by
    simp [Classical.or_iff_not_imp_left]
  simp only [integer?, h, hcond, ite_not]
  cases negative <;> simp [signValue]

/-- **What is read as an integer is what the grammar calls one.** -/
lemma integer?_eq_some_iff : integer? cs = some z ↔ Integer cs z := by
  constructor
  · intro h
    obtain ⟨sign, negative, digits, rfl, hsplit, hsign⟩ := exists_splitSign_eq cs
    rw [integer?_eq_ite hsplit, Option.ite_none_right_eq_some] at h
    obtain ⟨⟨hne, hall⟩, hvalue⟩ := h
    rw [← Option.some.inj hvalue]
    exact .mk hsign (digits_iff.2 ⟨hall, rfl⟩) hne
  · rintro ⟨hsign, hdigits, hne⟩
    obtain ⟨hall, rfl⟩ := digits_iff.1 hdigits
    obtain ⟨negative, hsplit, rfl⟩ := splitSign_append hsign hall
    rw [integer?_eq_ite hsplit, if_pos ⟨hne, hall⟩]

lemma decimal?_eq_ite (h : splitSign whole = (negative, digits)) :
    decimal? whole frac = if digits ++ frac ≠ [] ∧ allDigits (digits ++ frac) = true then
      some ((signValue negative : ℚ) * (Nat.ofDigitChars 10 (digits ++ frac) 0 : ℕ) /
        10 ^ frac.length) else none := by
  have hcond : (digits.isEmpty && frac.isEmpty || !allDigits digits || !allDigits frac) = true ↔
      ¬(digits ++ frac ≠ [] ∧ allDigits (digits ++ frac) = true) := by
    rw [allDigits_append, Ne, List.append_eq_nil_iff, ← List.isEmpty_iff, ← List.isEmpty_iff]
    simp only [Bool.or_eq_true, Bool.and_eq_true, Bool.not_eq_true', ← Bool.not_eq_true]
    tauto
  have hpow : ((Nat.pow 10 frac.length : ℕ) : ℚ) = 10 ^ frac.length := by
    rw [Nat.pow_eq]
    push_cast
    rfl
  simp only [decimal?, h, hcond, ite_not, Rat.mkRat_eq_div, hpow]
  cases negative <;> simp [signValue, neg_div]

/-- **What is read as a decimal is an optional sign and digits, with their value.** -/
lemma decimal?_eq_some_iff : decimal? whole frac = some q ↔
    ∃ (sign digits : List Char) (s : ℤ) (n : ℕ), whole = sign ++ digits ∧ Sign sign s ∧
      Digits (digits ++ frac) n ∧ digits ++ frac ≠ [] ∧ q = s * n / 10 ^ frac.length := by
  constructor
  · intro h
    obtain ⟨sign, negative, digits, rfl, hsplit, hsign⟩ := exists_splitSign_eq whole
    rw [decimal?_eq_ite hsplit, Option.ite_none_right_eq_some] at h
    obtain ⟨⟨hne, hall⟩, hvalue⟩ := h
    exact ⟨sign, digits, _, _, rfl, hsign, digits_iff.2 ⟨hall, rfl⟩, hne,
      (Option.some.inj hvalue).symm⟩
  · rintro ⟨sign, digits, s, n, rfl, hsign, hdigits, hne, rfl⟩
    obtain ⟨hall, rfl⟩ := digits_iff.1 hdigits
    obtain ⟨negative, hsplit, rfl⟩ := splitSign_append hsign (allDigits_append.1 hall).1
    rw [decimal?_eq_ite hsplit, if_pos ⟨hne, hall⟩]

/-- A text is split at a mark exactly into what stands before and after the first one in it. -/
lemma splitAt?_eq_some_iff :
    splitAt? mark cs = some (above, below) ↔ mark ∉ above ∧ cs = above ++ mark :: below := by
  constructor
  · intro h
    rw [splitAt?, Option.ite_none_right_eq_some] at h
    obtain ⟨hmem, hparts⟩ := h
    obtain ⟨rfl, rfl⟩ := Prod.mk.inj (Option.some.inj hparts)
    refine ⟨fun hmark => by simpa using List.mem_takeWhile_imp hmark, ?_⟩
    have hhead := List.head?_dropWhile_not (· != mark) cs
    cases hdrop : cs.dropWhile (· != mark) with
    | nil => simpa using List.dropWhile_eq_nil_iff.1 hdrop mark hmem
    | cons c rest =>
      obtain rfl : c = mark := by simpa [hdrop] using hhead
      rw [List.tail_cons, ← hdrop, List.takeWhile_append_dropWhile]
  · rintro ⟨hmark, rfl⟩
    have hpos : ∀ c ∈ above, (c != mark) = true := by
      intro c hc
      simpa using ne_of_mem_of_not_mem hc hmark
    rw [splitAt?, if_pos (by simp), List.takeWhile_append_of_pos hpos,
      List.dropWhile_append_of_pos hpos]
    simp

lemma splitAt?_eq_none_iff : splitAt? mark cs = none ↔ mark ∉ cs := by
  simp [splitAt?]

/-- **What is read as a fraction is two integers, the second not zero, with their quotient.** -/
lemma fraction_eq_ok_iff : fraction above below = .ok q ↔
    ∃ n m : ℤ, Integer (Text.trim above) n ∧ Integer (Text.trim below) m ∧ m ≠ 0 ∧ q = n / m := by
  simp only [← integer?_eq_some_iff]
  rw [fraction]
  cases integer? (Text.trim above) with
  | none => simp
  | some n =>
    cases integer? (Text.trim below) with
    | none => simp
    | some m => by_cases hm : m = 0 <;> simp [hm, eq_comm]

/-! ## Reading -/

lemma Sign.not_mem (h : Sign sign s) (hc : mark ≠ '+' ∧ mark ≠ '-') : mark ∉ sign := by
  cases h <;> simp [hc]

lemma Digits.not_mem (h : Digits digits n) (hc : mark.isDigit = false) : mark ∉ digits := by
  have hall := (digits_iff.1 h).1
  rw [allDigits, List.all_eq_true] at hall
  exact fun hmem => by simp [hall mark hmem] at hc

lemma Integer.not_mem (h : Integer cs z) (hsign : mark ≠ '+' ∧ mark ≠ '-')
    (hdigit : mark.isDigit = false) : mark ∉ cs := by
  obtain ⟨hs, hd, -⟩ := h
  exact List.not_mem_append (hs.not_mem hsign) (hd.not_mem hdigit)

/-- A trimmed text denotes the number that it is read as.

**Proof sketch.** Each branch of the reader belongs to one rule of the grammar. -/
lemma denotes_of_parse (h : parse cs = .ok q) : Denotes cs q := by
  rw [parse] at h
  split at h
  · next above below hbar =>
    obtain ⟨hmark, rfl⟩ := splitAt?_eq_some_iff.1 hbar
    obtain ⟨n, m, hn, hm, hne, rfl⟩ := fraction_eq_ok_iff.1 h
    exact .fraction hmark (Text.trimsTo_trim above) (Text.trimsTo_trim below) hn hm hne
  · split at h
    · next whole frac hpoint =>
      obtain ⟨-, rfl⟩ := splitAt?_eq_some_iff.1 hpoint
      split at h
      · next value hvalue =>
        obtain ⟨sign, digits, s, n, rfl, hsign, hdigits, hne, rfl⟩ := decimal?_eq_some_iff.1 hvalue
        obtain rfl := Except.ok.inj h
        exact .decimal hsign hdigits hne
      · simp at h
    · split at h
      · next value hvalue =>
        obtain rfl := Except.ok.inj h
        exact .integer (integer?_eq_some_iff.1 hvalue)
      · simp at h

/-- A trimmed text is read as the number that it denotes.

**Proof sketch.** Integers have neither a bar nor a point, and decimals have no bar and no point
before theirs, so the text of each rule comes to its own branch of the reader. -/
lemma parse_of_denotes (h : Denotes cs q) : parse cs = .ok q := by
  cases h with
  | @fraction above below a b n m hbar ha hb hn hm hne =>
    rw [parse, splitAt?_eq_some_iff.2 ⟨hbar, rfl⟩]
    exact fraction_eq_ok_iff.2 ⟨n, m, by rwa [ha.trim_eq], by rwa [hb.trim_eq], hne, rfl⟩
  | @decimal sign whole frac s n hsign hdigits hne =>
    have hbar : '/' ∉ sign ++ whole ++ '.' :: frac := by
      have hbar : '/' ∉ sign := hsign.not_mem (by decide)
      have hbar' : '/' ∉ whole ++ frac := hdigits.not_mem (by decide)
      simp_all
    have hpoint : '.' ∉ sign ++ whole := by
      have hpoint : '.' ∉ sign := hsign.not_mem (by decide)
      have hpoint' : '.' ∉ whole ++ frac := hdigits.not_mem (by decide)
      simp_all
    rw [parse, splitAt?_eq_none_iff.2 hbar]
    dsimp only
    rw [splitAt?_eq_some_iff.2 ⟨hpoint, rfl⟩]
    dsimp only
    rw [decimal?_eq_some_iff.2 ⟨sign, whole, s, n, rfl, hsign, hdigits, hne, rfl⟩]
  | @integer _ n hn =>
    have hbar : '/' ∉ cs := hn.not_mem (by decide) (by decide)
    have hpoint : '.' ∉ cs := hn.not_mem (by decide) (by decide)
    rw [parse, splitAt?_eq_none_iff.2 hbar]
    dsimp only
    rw [splitAt?_eq_none_iff.2 hpoint]
    dsimp only
    rw [integer?_eq_some_iff.2 hn]

/-- **A text is read as the number that it denotes after trimming, and as no other.** -/
lemma diagnose_eq_ok_iff {text : String} : diagnose text = .ok q ↔ IsNumeral text q := by
  simp only [IsNumeral, ← Text.trim_eq_iff, exists_eq_left', diagnose]
  exact ⟨denotes_of_parse, parse_of_denotes⟩

/-- **Reading accepts exactly the texts of the grammar, and it gives the exact number.** Any other
text is refused with an error that holds the text as it was given, blanks included. -/
theorem read_eq_iff_isNumeral (text : String) :
    (∀ q, read text = .ok q ↔ IsNumeral text q) ∧
      (read text = .error (.notRational text) ↔ ∀ q, ¬IsNumeral text q) := by
  simp only [← diagnose_eq_ok_iff, read]
  cases diagnose text with
  | ok value => simp [Except.mapError]
  | error fault => simp [Except.mapError]

end ExactArith.Numeral
