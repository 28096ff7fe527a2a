import ExactArith.Proofs.Tableau.Building

set_option autoImplicit false
set_option relaxedAutoImplicit false

/-!
# Names and their variables

A combination of names enters a tableau as a combination of problem variables, with the coefficients
of the names at their variables. Names keep their variables while a tableau grows, so the two
combinations determine each other once and for all: entering the same combination again creates
nothing and gives the same row.

## Main definitions

* `ExactArith.Tableau.Transcribes` — a combination of problem variables is one of names, each name
  replaced by its variable.
* `ExactArith.Tableau.enterEntry` — the reading of one entry of a combination.

## Main results

* `ExactArith.Tableau.Transcribes.unique`, `ExactArith.Tableau.Transcribes.injective` — the two
  combinations determine each other.
* `ExactArith.Tableau.IsFresh.transcribes_combination` — entering a combination transcribes it.
* `ExactArith.Tableau.IsFresh.combination_eq` — entering it again leaves the tableau as it is.
* `ExactArith.Tableau.mem_numbers_combination` — only its names get variables.
-/

namespace ExactArith.Tableau

/-- A combination of problem variables is one of names, each name replaced by its variable. -/
structure Transcribes (t : Tableau) (row : LinComb ℕ) (c : LinComb String) : Prop where
  row_isReduced : row.IsReduced
  isReduced : c.IsReduced
  /-- Every name has a variable. -/
  numbered : ∀ name : String, c.coeff name ≠ 0 → ∃ k, t.numbers[name]? = some k
  /-- Its variable has the coefficient of the name. -/
  coeff_eq : ∀ (name : String) k, t.numbers[name]? = some k → row.coeff k = c.coeff name
  /-- No other variable has a coefficient. -/
  support : ∀ k, row.coeff k ≠ 0 → ∃ name : String, t.numbers[name]? = some k

namespace Transcribes

variable {t u : Tableau} {row other : LinComb ℕ} {c d : LinComb String}

/-- A combination of names has one transcription. -/
lemma unique (h : t.Transcribes row c) (h' : t.Transcribes other c) : row = other := by
  refine h.row_isReduced.ext h'.row_isReduced (Finsupp.ext fun k => ?_)
  rw [LinComb.toFinsupp_apply, LinComb.toFinsupp_apply]
  by_cases hk : ∃ name : String, t.numbers[name]? = some k
  · obtain ⟨name, hname⟩ := hk
    rw [h.coeff_eq name k hname, h'.coeff_eq name k hname]
  · rw [not_not.1 (mt (h.support k) hk), not_not.1 (mt (h'.support k) hk)]

/-- A transcription is that of one combination of names. -/
lemma injective (h : t.Transcribes row c) (h' : t.Transcribes row d) : c = d := by
  refine h.isReduced.ext h'.isReduced (Finsupp.ext fun name => ?_)
  rw [LinComb.toFinsupp_apply, LinComb.toFinsupp_apply]
  by_cases hname : ∃ k, t.numbers[name]? = some k
  · obtain ⟨k, hk⟩ := hname
    rw [← h.coeff_eq name k hk, h'.coeff_eq name k hk]
  · rw [not_not.1 (mt (h.numbered name) hname), not_not.1 (mt (h'.numbered name) hname)]

/-- Transcriptions depend on the variables of the names alone. -/
lemma congr (h : t.Transcribes row c) (hnumbers : u.numbers = t.numbers) : u.Transcribes row c where
  row_isReduced := h.row_isReduced
  isReduced := h.isReduced
  numbered := hnumbers ▸ h.numbered
  coeff_eq := hnumbers ▸ h.coeff_eq
  support := hnumbers ▸ h.support

/-- A transcription stays one while the tableau grows: a new name does not occur in the combination,
and its variable is new. -/
lemma mono (h : t.Transcribes row c) (hgrows : t.Grows u) (hu : u.HasLayout) :
    u.Transcribes row c where
  row_isReduced := h.row_isReduced
  isReduced := h.isReduced
  numbered := fun name hname => (h.numbered name hname).imp fun k hk => hgrows.number name k hk
  coeff_eq := fun name k hk => by
    by_cases hold : ∃ j, t.numbers[name]? = some j
    · obtain ⟨j, hj⟩ := hold
      obtain rfl : j = k := Option.some.inj ((hgrows.number name j hj).symm.trans hk)
      exact h.coeff_eq name j hj
    · rw [not_not.1 (mt (h.numbered name) hold)]
      by_contra hne
      obtain ⟨other, hother⟩ := h.support k hne
      obtain rfl := hu.number_inj other name k (hgrows.number other k hother) hk
      exact hold ⟨k, hother⟩
  support := fun k hk => (h.support k hk).imp fun name hname => hgrows.number name k hname

end Transcribes

/-! ## Entering combinations -/

/-- **A combination that stands for one of names transcribes it.**

**Proof sketch.** Both have the same value at every point. At the point where one name is one and
all others are zero, these values are the coefficients of the name and of its variable. -/
lemma StandsFor.transcribes {t : Tableau} {row : LinComb ℕ} {c : LinComb String} (ht : t.HasLayout)
    (h : t.StandsFor row fun σ : String → ℚ => c.eval σ) (hc : c.IsReduced) :
    t.Transcribes row c := by
  classical
  have hunit : ∀ name : String, c.eval (Pi.single name (1 : ℚ)) = c.coeff name := by
    intro name
    rw [LinComb.eval_piSingle, smul_eq_mul, mul_one]
  refine ⟨h.isReduced, hc, fun name hname => ?_, fun name k hk => ?_, h.support⟩
  · by_contra hnone
    obtain ⟨x, hx⟩ := ht.exists_point (Pi.single name (1 : ℚ))
    refine hname ?_
    -- no variable of the row has this name, so the row is zero at the point
    rw [← hunit, ← h.eval_eq _ x hx, LinComb.eval_congr (y := fun _ => 0), LinComb.eval_eq_sum]
    · simp
    · intro j hj
      obtain ⟨other, hother⟩ := h.support j hj
      rw [hx.number other j hother, Pi.single_eq_of_ne]
      rintro rfl
      exact hnone ⟨j, hother⟩
  · obtain ⟨x, hx⟩ := ht.exists_point (Pi.single name (1 : ℚ))
    rw [← hunit, ← h.eval_eq _ x hx, LinComb.eval_congr (y := Pi.single k 1),
      LinComb.eval_piSingle, smul_eq_mul, mul_one]
    intro j hj
    obtain ⟨other, hother⟩ := h.support j hj
    rw [hx.number other j hother]
    by_cases hname : other = name
    · subst hname
      obtain rfl : j = k := Option.some.inj (hother.symm.trans hk)
      rw [Pi.single_eq_same, Pi.single_eq_same]
    · rw [Pi.single_eq_of_ne hname, Pi.single_eq_of_ne]
      rintro rfl
      exact hname (ht.number_inj other name j hother hk)

section Combination

variable {t : Tableau} {row : LinComb ℕ} {c : LinComb String}

/-- **Entering a combination transcribes it.** -/
lemma IsFresh.transcribes_combination (h : t.IsFresh) (hc : c.IsReduced) :
    (t.combination c).2.Transcribes (t.combination c).1 c := by
  obtain ⟨hfresh, -, hstands⟩ := IsFresh.combination (V := ℚ) h hc
  exact hstands.transcribes hfresh.toHasLayout hc

/-- Reading one entry of a combination: its name gets a variable, and in the row this variable gets
its coefficient. -/
def enterEntry (s : LinComb ℕ × Tableau) (e : String × ℚ) : LinComb ℕ × Tableau :=
  (s.1.set (s.2.number e.1).1 e.2, (s.2.number e.1).2)

lemma combination_eq_foldl (t : Tableau) (c : LinComb String) :
    t.combination c = c.toList.foldl enterEntry (∅, t) := rfl

lemma number_of_getElem? {name : String} {k : ℕ} (h : t.numbers[name]? = some k) :
    t.number name = (k, t) := by
  rw [number, h]

/-- Reading entries whose names have variables creates none. -/
lemma foldl_enterEntry_snd (entries : List (String × ℚ))
    (h : ∀ e ∈ entries, ∃ k, t.numbers[e.1]? = some k) (row : LinComb ℕ) :
    (entries.foldl enterEntry (row, t)).2 = t := by
  induction entries generalizing row with
  | nil => rfl
  | cons e entries ih =>
    obtain ⟨k, hk⟩ := h e List.mem_cons_self
    rw [List.foldl_cons, enterEntry, number_of_getElem? hk]
    exact ih (fun f hf => h f (List.mem_cons_of_mem e hf)) _

/-- **Entering a combination again leaves the tableau as it is** and gives the same row. -/
lemma IsFresh.combination_eq (h : t.IsFresh) (hrow : t.Transcribes row c) :
    t.combination c = (row, t) := by
  have hsame : (t.combination c).2 = t := by
    refine foldl_enterEntry_snd c.toList (fun e he => hrow.numbered e.1 ?_) ∅
    have hstored := hrow.isReduced.getElem?_eq_some_iff.1 (LinComb.mem_toList_iff.1 he)
    rw [hstored.1]
    exact hstored.2
  have hnew := h.transcribes_combination hrow.isReduced
  rw [hsame] at hnew
  exact Prod.ext (hnew.unique hrow) hsame

/-- Reading entries keeps the variables and slacks that there are. -/
lemma grows_foldl_enterEntry (entries : List (String × ℚ)) (s : LinComb ℕ × Tableau) :
    s.2.Grows (entries.foldl enterEntry s).2 := by
  induction entries generalizing s with
  | nil => exact Grows.refl s.2
  | cons e entries ih => exact (s.2.grows_number e.1).trans (ih (enterEntry s e))

/-- The first name of a combination gets the variable that it would get alone. -/
lemma getElem?_numbers_combination {e : String × ℚ} {rest : List (String × ℚ)}
    (h : c.toList = e :: rest) :
    (t.combination c).2.numbers[e.1]? = some (t.number e.1).1 := by
  rw [combination_eq_foldl, h, List.foldl_cons]
  exact (grows_foldl_enterEntry rest _).number e.1 _ (t.number_getElem? e.1)

/-- Only the names that are asked for get variables. -/
lemma mem_numbers_number {name other : String} {k : ℕ}
    (h : (t.number other).2.numbers[name]? = some k) :
    t.numbers[name]? = some k ∨ name = other := by
  rw [number] at h
  split at h
  · exact Or.inl h
  · rcases SortedMap.getElem?_insert_eq_some_iff.1 h with ⟨rfl, -⟩ | ⟨-, h⟩
    · exact Or.inr rfl
    · exact Or.inl h

lemma mem_numbers_foldl_enterEntry {entries : List (String × ℚ)} {name : String} {k : ℕ}
    (s : LinComb ℕ × Tableau)
    (h : (entries.foldl enterEntry s).2.numbers[name]? = some k) :
    s.2.numbers[name]? = some k ∨ ∃ e ∈ entries, e.1 = name := by
  induction entries generalizing s with
  | nil => exact Or.inl h
  | cons e entries ih =>
    rcases ih _ h with hold | ⟨f, hf, hname⟩
    · rcases mem_numbers_number hold with hold | rfl
      · exact Or.inl hold
      · exact Or.inr ⟨e, List.mem_cons_self, rfl⟩
    · exact Or.inr ⟨f, List.mem_cons_of_mem e hf, hname⟩

/-- **Only the names of a combination get variables** when it is entered. -/
lemma mem_numbers_combination (hc : c.IsReduced) {name : String} {k : ℕ}
    (h : (t.combination c).2.numbers[name]? = some k) :
    t.numbers[name]? = some k ∨ c.coeff name ≠ 0 := by
  refine (mem_numbers_foldl_enterEntry (∅, t) h).imp_right ?_
  rintro ⟨e, he, rfl⟩
  have hstored := hc.getElem?_eq_some_iff.1 (LinComb.mem_toList_iff.1 he)
  rw [hstored.1]
  exact hstored.2

end Combination

end ExactArith.Tableau
