import ExactArith.Proofs.Tableau.Building

set_option autoImplicit false
set_option relaxedAutoImplicit false

/-!
# Bounds on a variable

A comparison with a number puts a lower bound on a variable, an upper bound, or both. A variable
that is bounded again keeps the greater one of two lower bounds and the smaller one of two upper
bounds. Bounds that do not exclude each other leave a rational number between them, and one beyond
any further bound that would be tighter. So a comparison that follows from the bounds of a variable
changes none of them.

## Main definitions

* `ExactArith.Relation.lower?`, `ExactArith.Relation.upper?` — the bounds that a comparison puts on
  a variable.

## Main results

* `ExactArith.Tableau.lower_bound_getElem?`, `ExactArith.Tableau.upper_bound_getElem?` — the bounds
  after one more comparison.
* `ExactArith.DeltaRat.exists_ofRat_between` — bounds that do not exclude each other leave a
  rational number.
* `ExactArith.DeltaRat.exists_le_of_implied`, `ExactArith.DeltaRat.exists_ge_of_implied` — a bound
  that follows from others is no tighter than one of them.
* `ExactArith.Tableau.bound_eq_self` — a comparison that follows from the bounds changes none.
-/

namespace ExactArith

/-! ## Comparisons -/

namespace Relation

/-- The lower bound that the comparison with a number puts on a variable. -/
def lower? (relation : Relation) (b : ℚ) : Option DeltaRat :=
  match relation with
  | .eq | .ge => some ⟨b, 0⟩
  | .gt => some ⟨b, 1⟩
  | .le | .lt => none

/-- The upper bound that the comparison with a number puts on a variable. -/
def upper? (relation : Relation) (b : ℚ) : Option DeltaRat :=
  match relation with
  | .eq | .le => some ⟨b, 0⟩
  | .lt => some ⟨b, -1⟩
  | .ge | .gt => none

/-- A comparison admits the values between its bounds. -/
lemma admits_iff {relation : Relation} {b : ℚ} {v : DeltaRat} : relation.Admits b v ↔
    (∀ l, relation.lower? b = some l → l ≤ v) ∧ ∀ u, relation.upper? b = some u → v ≤ u := by
  cases relation <;> simp [Admits, lower?, upper?]

/-- A lower bound keeps an infinitesimal distance of one, or none. -/
lemma delta_lower? {relation : Relation} {b : ℚ} {l : DeltaRat} (h : relation.lower? b = some l) :
    l.delta = 0 ∨ l.delta = 1 := by
  cases relation <;> simp only [lower?, Option.some.injEq, reduceCtorEq] at h <;> subst h <;> simp

lemma delta_upper? {relation : Relation} {b : ℚ} {u : DeltaRat} (h : relation.upper? b = some u) :
    u.delta = 0 ∨ u.delta = -1 := by
  cases relation <;> simp only [upper?, Option.some.injEq, reduceCtorEq] at h <;> subst h <;> simp

end Relation

/-! ## Tightening -/

namespace Tableau

variable (t : Tableau) (k : ℕ) (relation : Relation) (b : ℚ)

lemma lower_tightenLower (c : DeltaRat) (j : ℕ) : (t.tightenLower k c).lower[j]? =
    if k = j then Option.merge max t.lower[j]? (some c) else t.lower[j]? := by
  rw [tightenLower]
  by_cases hj : k = j
  · subst hj
    cases hl : t.lower[k]? with
    | none => simp
    | some l =>
      rcases lt_or_ge l c with hlt | hle
      · simp [hlt, max_eq_right hlt.le]
      · simp [hle.not_gt, hl, max_eq_left hle]
  · split_ifs <;> simp [Std.ExtTreeMap.getElem?_insert, hj]

lemma upper_tightenUpper (c : DeltaRat) (j : ℕ) : (t.tightenUpper k c).upper[j]? =
    if k = j then Option.merge min t.upper[j]? (some c) else t.upper[j]? := by
  rw [tightenUpper]
  by_cases hj : k = j
  · subst hj
    cases hu : t.upper[k]? with
    | none => simp
    | some u =>
      rcases lt_or_ge c u with hlt | hle
      · simp [hlt, min_eq_right hlt.le]
      · simp [hle.not_gt, hu, min_eq_left hle]
  · split_ifs <;> simp [Std.ExtTreeMap.getElem?_insert, hj]

@[simp] lemma upper_tightenLower (c : DeltaRat) : (t.tightenLower k c).upper = t.upper := by
  rw [tightenLower]
  split_ifs <;> rfl

@[simp] lemma lower_tightenUpper (c : DeltaRat) : (t.tightenUpper k c).lower = t.lower := by
  rw [tightenUpper]
  split_ifs <;> rfl

/-- A comparison raises the lower bound to its own and brings the upper bound down to its own. -/
lemma bound_eq_elim : t.bound k relation b =
    let raised := (relation.lower? b).elim t (t.tightenLower k)
    (relation.upper? b).elim raised (raised.tightenUpper k) := by
  cases relation <;> rfl

/-- **Of two lower bounds a variable keeps the greater one.** -/
lemma lower_bound_getElem? (j : ℕ) : (t.bound k relation b).lower[j]? =
    if k = j then Option.merge max t.lower[j]? (relation.lower? b) else t.lower[j]? := by
  rw [bound_eq_elim]
  cases relation.lower? b <;> cases relation.upper? b <;> simp [lower_tightenLower]

/-- **Of two upper bounds a variable keeps the smaller one.** -/
lemma upper_bound_getElem? (j : ℕ) : (t.bound k relation b).upper[j]? =
    if k = j then Option.merge min t.upper[j]? (relation.upper? b) else t.upper[j]? := by
  rw [bound_eq_elim]
  cases relation.lower? b <;> cases relation.upper? b <;> simp [upper_tightenUpper]

end Tableau

/-! ## Rational numbers within bounds -/

namespace DeltaRat

/-- **Bounds that do not exclude each other leave a rational number**, if no infinitesimal part
makes them wider than their rational parts.

**Proof sketch.** The greatest lower bound and the smallest upper bound decide. If their rational
parts are equal, neither has an infinitesimal part, and the number is theirs. -/
lemma exists_ofRat_between {lowers uppers : List DeltaRat} (hl : ∀ l ∈ lowers, 0 ≤ l.delta)
    (hu : ∀ u ∈ uppers, u.delta ≤ 0) (h : ∀ l ∈ lowers, ∀ u ∈ uppers, l ≤ u) :
    ∃ q, (∀ l ∈ lowers, l ≤ ofRat q) ∧ ∀ u ∈ uppers, ofRat q ≤ u := by
  cases hmax : lowers.max? with
  | none =>
    obtain rfl := List.max?_eq_none_iff.1 hmax
    cases hmin : uppers.min? with
    | none => exact ⟨0, by simp, by simp [List.min?_eq_none_iff.1 hmin]⟩
    | some u =>
      have hle : ofRat (u.real - 1) ≤ u := by simp [le_iff]
      exact ⟨u.real - 1, by simp, (List.le_min?_iff hmin).1 hle⟩
  | some l =>
    obtain ⟨hmem, hgreatest⟩ := List.max?_eq_some_iff.1 hmax
    cases hmin : uppers.min? with
    | none =>
      have hle : l ≤ ofRat (l.real + 1) := by simp [le_iff]
      exact ⟨l.real + 1, (List.max?_le_iff hmax).1 hle, by simp [List.min?_eq_none_iff.1 hmin]⟩
    | some u =>
      have hdl := hl l hmem
      have humem := (List.min?_eq_some_iff.1 hmin).1
      have hdu := hu u humem
      obtain ⟨q, hlq, hqu⟩ : ∃ q, l ≤ ofRat q ∧ ofRat q ≤ u := by
        rcases le_iff.1 (h l hmem u humem) with hlt | ⟨heq, hle⟩
        · exact ⟨(l.real + u.real) / 2, le_iff.2 (Or.inl (by rw [real_ofRat]; linarith)),
            le_iff.2 (Or.inl (by rw [real_ofRat]; linarith))⟩
        · exact ⟨l.real, le_iff.2 (Or.inr ⟨rfl, hle.trans hdu⟩),
            le_iff.2 (Or.inr ⟨heq, hdl.trans hle⟩)⟩
      exact ⟨q, (List.max?_le_iff hmax).1 hlq, (List.le_min?_iff hmin).1 hqu⟩

/-- **A lower bound that follows from the bounds of a variable is at most one of them.**

**Proof sketch.** Otherwise it is greater than all lower bounds. Infinitesimal distances are one or
none, so it is still at least as great when it is lowered by `δ`. As one more upper bound, the
lowered one leaves a rational number within the bounds, to which the bound does not apply. -/
lemma exists_le_of_implied {lowers uppers : List DeltaRat} {c : DeltaRat}
    (hl : ∀ l ∈ lowers, l.delta = 0 ∨ l.delta = 1) (hu : ∀ u ∈ uppers, u.delta = 0 ∨ u.delta = -1)
    (h : ∀ l ∈ lowers, ∀ u ∈ uppers, l ≤ u) (hc : c.delta = 0 ∨ c.delta = 1)
    (himplied : ∀ q, (∀ l ∈ lowers, l ≤ ofRat q) → (∀ u ∈ uppers, ofRat q ≤ u) → c ≤ ofRat q) :
    ∃ l ∈ lowers, c ≤ l := by
  by_contra hgreater
  push Not at hgreater
  let below : DeltaRat := ⟨c.real, c.delta - 1⟩
  have hlowers : ∀ l ∈ lowers, l ≤ below := by
    intro l hmem
    rcases lt_iff.1 (hgreater l hmem) with hlt | ⟨heq, hlt⟩
    · exact le_iff.2 (Or.inl hlt)
    · refine le_iff.2 (Or.inr ⟨heq, ?_⟩)
      change l.delta ≤ c.delta - 1
      rcases hl l hmem with hd | hd <;> rcases hc with hd' | hd' <;> linarith
  have hbelow : below.delta ≤ 0 := by
    change c.delta - 1 ≤ 0
    rcases hc with hd | hd <;> linarith
  obtain ⟨q, hlq, hqu⟩ : ∃ q, (∀ l ∈ lowers, l ≤ ofRat q) ∧ ∀ u ∈ below :: uppers, ofRat q ≤ u := by
    refine exists_ofRat_between (fun l hmem => ?_)
      (List.forall_mem_cons.2 ⟨hbelow, fun u hmem => ?_⟩)
      fun l hmem => List.forall_mem_cons.2 ⟨hlowers l hmem, h l hmem⟩
    · rcases hl l hmem with hd | hd <;> rw [hd]
      exact zero_le_one
    · rcases hu u hmem with hd | hd <;> rw [hd]
      exact neg_nonpos.2 zero_le_one
  obtain ⟨hqc, hqu⟩ := List.forall_mem_cons.1 hqu
  have hlt : below < c := lt_iff.2 (Or.inr ⟨rfl, sub_one_lt c.delta⟩)
  exact (hqc.trans_lt hlt).not_ge (himplied q hlq hqu)

/-- **An upper bound that follows from the bounds of a variable is at least one of them**: negation
exchanges the two kinds of bounds. -/
lemma exists_ge_of_implied {lowers uppers : List DeltaRat} {c : DeltaRat}
    (hl : ∀ l ∈ lowers, l.delta = 0 ∨ l.delta = 1) (hu : ∀ u ∈ uppers, u.delta = 0 ∨ u.delta = -1)
    (h : ∀ l ∈ lowers, ∀ u ∈ uppers, l ≤ u) (hc : c.delta = 0 ∨ c.delta = -1)
    (himplied : ∀ q, (∀ l ∈ lowers, l ≤ ofRat q) → (∀ u ∈ uppers, ofRat q ≤ u) → ofRat q ≤ c) :
    ∃ u ∈ uppers, u ≤ c := by
  have hlneg : ∀ l ∈ uppers.map Neg.neg, l.delta = 0 ∨ l.delta = 1 :=
    List.forall_mem_map.2 fun u hmem => by simpa [neg_eq_iff_eq_neg] using hu u hmem
  have huneg : ∀ u ∈ lowers.map Neg.neg, u.delta = 0 ∨ u.delta = -1 :=
    List.forall_mem_map.2 fun l hmem => by simpa [neg_eq_iff_eq_neg] using hl l hmem
  have hcneg : (-c).delta = 0 ∨ (-c).delta = 1 := by simpa [neg_eq_iff_eq_neg] using hc
  have hneg : ∃ l ∈ uppers.map Neg.neg, -c ≤ l := by
    refine exists_le_of_implied hlneg huneg (List.forall_mem_map.2 fun u humem =>
      List.forall_mem_map.2 fun l hlmem => neg_le_neg (h l hlmem u humem)) hcneg fun q hlq hqu => ?_
    rw [List.forall_mem_map] at hlq hqu
    rw [neg_le, ← map_neg]
    refine himplied (-q) (fun l hmem => ?_) fun u hmem => ?_
    · rw [map_neg]
      exact le_neg_of_le_neg (hqu l hmem)
    · rw [map_neg]
      exact neg_le_of_neg_le (hlq u hmem)
  obtain ⟨_, hmem, hle⟩ := hneg
  obtain ⟨u, humem, rfl⟩ := List.mem_map.1 hmem
  exact ⟨u, humem, neg_le_neg_iff.1 hle⟩

end DeltaRat

/-! ## Comparisons that change nothing -/

namespace Tableau

variable {t : Tableau} {k : ℕ}

lemma tightenLower_eq_self {l c : DeltaRat} (hl : t.lower[k]? = some l) (h : c ≤ l) :
    t.tightenLower k c = t := by
  rw [tightenLower, hl, if_neg]
  simpa using h

lemma tightenUpper_eq_self {u c : DeltaRat} (hu : t.upper[k]? = some u) (h : u ≤ c) :
    t.tightenUpper k c = t := by
  rw [tightenUpper, hu, if_neg]
  simpa using h

/-- **A comparison that follows from the bounds of a variable changes none of them.** The bounds are
the greatest and the smallest of those that comparisons put on the variable. -/
lemma bound_eq_self {lowers uppers : List DeltaRat} {relation : Relation} {b : ℚ}
    (hlower : t.lower[k]? = lowers.max?) (hupper : t.upper[k]? = uppers.min?)
    (hl : ∀ l ∈ lowers, l.delta = 0 ∨ l.delta = 1) (hu : ∀ u ∈ uppers, u.delta = 0 ∨ u.delta = -1)
    (h : ∀ l ∈ lowers, ∀ u ∈ uppers, l ≤ u)
    (himplied : ∀ q, (∀ l ∈ lowers, l ≤ DeltaRat.ofRat q) → (∀ u ∈ uppers, DeltaRat.ofRat q ≤ u) →
      relation.Admits b (DeltaRat.ofRat q)) :
    t.bound k relation b = t := by
  simp only [Relation.admits_iff] at himplied
  have hraised : (relation.lower? b).elim t (t.tightenLower k) = t := by
    cases hc : relation.lower? b with
    | none => rfl
    | some c =>
      obtain ⟨l, hmem, hle⟩ := DeltaRat.exists_le_of_implied hl hu h (Relation.delta_lower? hc)
        fun q hlq hqu => (himplied q hlq hqu).1 c hc
      obtain ⟨greatest, hmax⟩ := Option.isSome_iff_exists.1 (List.isSome_max?_of_mem hmem)
      exact tightenLower_eq_self (hlower.trans hmax)
        (hle.trans ((List.max?_eq_some_iff.1 hmax).2 l hmem))
  have hlowered : (relation.upper? b).elim t (t.tightenUpper k) = t := by
    cases hc : relation.upper? b with
    | none => rfl
    | some c =>
      obtain ⟨u, hmem, hle⟩ := DeltaRat.exists_ge_of_implied hl hu h (Relation.delta_upper? hc)
        fun q hlq hqu => (himplied q hlq hqu).2 c hc
      obtain ⟨smallest, hmin⟩ := Option.isSome_iff_exists.1 (List.isSome_min?_of_mem hmem)
      exact tightenUpper_eq_self (hupper.trans hmin)
        (((List.min?_eq_some_iff.1 hmin).2 u hmem).trans hle)
  rw [bound_eq_elim, hraised]
  exact hlowered

end Tableau

end ExactArith
