import ExactArith.Expr.Constant
import ExactArith.Proofs.Number.Numeral

set_option autoImplicit false
set_option relaxedAutoImplicit false

/-!
# What is written is read back

The text of a number is a numeral of the grammar: an integer, or a fraction whose denominator is not
zero. It denotes the number from which it was written, so it is read as that number, and no two
numbers have one text. The text holds no blank, so trimming takes away just the blanks around it.

## Main results

* `ExactArith.Numeral.integer_repr` — the text of an integer is an integer of the grammar.
* `ExactArith.Numeral.mem_write`, `ExactArith.Numeral.exists_write_eq_cons` — the characters of a
  written number, and the first of them.
* `ExactArith.Numeral.denotes_write` — the text of a number denotes this number.
* `ExactArith.Numeral.write_injective` — different numbers have different texts.
* `ExactArith.Numeral.read_write` — the text of a number is read back, with any blanks around it.
-/

namespace ExactArith.Numeral

variable {n : ℕ} {z : ℤ} {q : ℚ} {c : Char}

/-! ## Integers -/

/-- The decimal digits of a natural number have this number as their value. -/
lemma digits_toDigits (n : ℕ) : Digits (Nat.toDigits 10 n) n := by
  refine digits_iff.2 ⟨?_, Nat.ofDigitChars_ten_toDigits⟩
  rw [allDigits, List.all_eq_true]
  intro c hc
  exact Nat.isDigit_of_mem_toDigits (by omega) (by omega) hc

/-- **The text of an integer is an integer of the grammar**, without a sign or with a minus. -/
lemma integer_repr (z : ℤ) : Integer z.repr.toList z := by
  rw [Int.repr_eq_if]
  split_ifs with hz
  · have hinteger := Integer.mk .none (digits_toDigits z.toNat) Nat.toDigits_ne_nil
    rwa [one_mul, Int.toNat_of_nonneg hz, List.nil_append, ← Nat.toList_repr] at hinteger
  · have hinteger := Integer.mk .minus (digits_toDigits (-z).toNat) Nat.toDigits_ne_nil
    rw [Int.toNat_of_nonneg (by omega), neg_one_mul, neg_neg, ← Nat.toList_repr] at hinteger
    rwa [String.toList_append]

lemma Integer.ne_nil {cs : List Char} (h : Integer cs z) : cs ≠ [] := by
  obtain ⟨-, -, hne⟩ := h
  simp [hne]

lemma isDigit_of_mem_repr (h : c ∈ n.repr.toList) : c.isDigit = true := by
  rw [Nat.toList_repr] at h
  exact Nat.isDigit_of_mem_toDigits (by omega) (by omega) h

lemma mem_repr (h : c ∈ z.repr.toList) : c.isDigit = true ∨ c = '-' := by
  rw [Int.repr_eq_if] at h
  split_ifs at h
  · exact Or.inl (isDigit_of_mem_repr h)
  · rw [String.toList_append, List.mem_append] at h
    rcases h with h | h
    · exact Or.inr (by simpa using h)
    · exact Or.inl (isDigit_of_mem_repr h)

/-! ## The characters of a written number -/

/-- A written number holds digits, a minus and a bar, and nothing else. -/
lemma mem_write (h : c ∈ (write q).toList) : c.isDigit = true ∨ c = '-' ∨ c = '/' := by
  unfold write at h
  split_ifs at h
  · exact (mem_repr h).imp_right Or.inl
  · simp only [String.toList_append, List.mem_append] at h
    rcases h with (h | h) | h
    · exact (mem_repr h).imp_right Or.inl
    · exact Or.inr (Or.inr (by simpa using h))
    · exact Or.inl (isDigit_of_mem_repr h)

/-- A written number starts with a digit or a minus. -/
lemma exists_write_eq_cons (q : ℚ) : ∃ first rest, (write q).toList = first :: rest ∧
    (first.isDigit = true ∨ first = '-') := by
  obtain ⟨first, rest, hrepr⟩ := List.exists_cons_of_ne_nil (integer_repr q.num).ne_nil
  have hfirst : first.isDigit = true ∨ first = '-' := mem_repr (z := q.num) (by simp [hrepr])
  unfold write
  split_ifs
  · exact ⟨first, rest, hrepr, hfirst⟩
  · refine ⟨first, rest ++ "/".toList ++ q.den.repr.toList, ?_, hfirst⟩
    simp only [String.toList_append, hrepr, List.cons_append]

lemma isBlank_eq_false_of_isDigit (h : c.isDigit = true) : Text.isBlank c = false := by
  have hbounds := toNat_of_isDigit h
  simp only [Text.isBlank, Text.blankRanges, List.any_cons, List.any_nil, Bool.or_eq_false_iff,
    Bool.and_eq_false_iff, decide_eq_false_iff_not, and_true]
  omega

/-- The text of an integer has no blanks to trim. -/
lemma trimsTo_repr (z : ℤ) : Text.TrimsTo z.repr.toList z.repr.toList := by
  apply Text.TrimsTo.refl
  intro c hc
  rcases mem_repr hc with hdigit | rfl
  · exact isBlank_eq_false_of_isDigit hdigit
  · rfl

lemma isBlank_eq_false_of_mem_write (h : c ∈ (write q).toList) : Text.isBlank c = false := by
  rcases mem_write h with hdigit | rfl | rfl
  · exact isBlank_eq_false_of_isDigit hdigit
  · rfl
  · rfl

/-! ## Reading back -/

/-- **The text of a number denotes this number.** -/
lemma denotes_write (q : ℚ) : Denotes (write q).toList q := by
  unfold write
  split_ifs with hden
  · have hwhole : (q.num : ℚ) = q := Rat.coe_int_num_of_den_eq_one hden
    have hdenotes := Denotes.integer (integer_repr q.num)
    rwa [hwhole] at hdenotes
  · have hquotient : (q.num : ℚ) / (q.den : ℤ) = q := by exact_mod_cast Rat.num_div_den q
    have hbar : '/' ∉ q.num.repr.toList := (integer_repr q.num).not_mem (by decide) (by decide)
    have hdenotes := Denotes.fraction hbar (trimsTo_repr q.num) (trimsTo_repr q.den)
      (integer_repr q.num) (integer_repr q.den) (by exact_mod_cast q.den_nz)
    rw [hquotient] at hdenotes
    rw [String.toList_append, String.toList_append, List.append_assoc]
    exact hdenotes

/-- **Different numbers have different texts.** -/
lemma write_injective : Function.Injective write := by
  intro q r h
  have hq := parse_of_denotes (denotes_write q)
  have hr := parse_of_denotes (denotes_write r)
  rw [h, hr] at hq
  exact (Except.ok.inj hq).symm

/-- **The text of a number is read as this number, whatever blanks stand around it**; and as a
constant of an expression it is read as the same number. -/
theorem read_write (q : ℚ) :
    (∀ before after : String, (∀ c ∈ before.toList, Text.isBlank c = true) →
      (∀ c ∈ after.toList, Text.isBlank c = true) → read (before ++ write q ++ after) = .ok q) ∧
    Constant.ofText (write q) = .ok q := by
  have hread : ∀ before after : String, (∀ c ∈ before.toList, Text.isBlank c = true) →
      (∀ c ∈ after.toList, Text.isBlank c = true) → read (before ++ write q ++ after) = .ok q := by
    intro before after hbefore hafter
    have hnumeral : IsNumeral (before ++ write q ++ after) q := by
      refine ⟨(write q).toList, ?_, denotes_write q⟩
      rw [String.toList_append, String.toList_append]
      exact .of_not_isBlank hbefore hafter fun c => isBlank_eq_false_of_mem_write
    rw [read, diagnose_eq_ok_iff.2 hnumeral]
    rfl
  refine ⟨hread, ?_⟩
  have hself : read (write q) = .ok q := by simpa using hread "" ""
  rw [Constant.ofText, hself]
  rfl

/-- A negative fraction between a no-break space with a tab and an em space. -/
theorem read_write_blanks : (∀ c ∈ "\u00a0\t".toList, Text.isBlank c = true) ∧
    (∀ c ∈ "\u2003".toList, Text.isBlank c = true) ∧
    read ("\u00a0\t" ++ "-7/3" ++ "\u2003") = .ok (-7 / 3) := by
  have hbefore : ∀ c ∈ "\u00a0\t".toList, Text.isBlank c = true := List.all_eq_true.1 (by decide)
  have hafter : ∀ c ∈ "\u2003".toList, Text.isBlank c = true := List.all_eq_true.1 (by decide)
  have hwrite : write (-7 / 3) = "-7/3" := by decide +kernel
  refine ⟨hbefore, hafter, ?_⟩
  rw [← hwrite]
  exact (read_write (-7 / 3)).1 _ _ hbefore hafter

end ExactArith.Numeral
