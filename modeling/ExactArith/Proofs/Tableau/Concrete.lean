import ExactArith.Proofs.Tableau.System

set_option autoImplicit false
set_option relaxedAutoImplicit false

/-!
# A concrete infinitesimal

The values of a tableau are within their bounds as pairs. A concrete `δ` keeps them there if it does
not exceed the limit at which some value meets its bound.

## Main results

* `ExactArith.DeltaRat.evalAt_le_evalAt` — below the limit, an order of pairs is one of numbers.
* `ExactArith.Tableau.concreteDelta_pos`, `ExactArith.Tableau.concreteDelta_le` — the concrete `δ`
  is positive and below all limits.
* `ExactArith.Tableau.InBounds.evalAt` — at the concrete `δ`, and at any smaller one, a value is
  within its bounds.
* `ExactArith.Tableau.HasLayout.allows_of_model` — the bounds allow what the model says.
-/

namespace ExactArith

/-! ## Limits -/

lemma DeltaRat.crossing?_pos {a b : DeltaRat} {limit : ℚ} (h : a.crossing? b = some limit) :
    0 < limit := by
  rw [crossing?] at h
  split_ifs at h with hc
  obtain rfl := Option.some.inj h
  exact div_pos (sub_pos.2 hc.1) (sub_pos.2 hc.2)

/-- **Below the limit, an order of pairs is one of numbers.**

**Proof sketch.** If the infinitesimal parts are in the same order, every `δ` will do. If not, the
rational parts differ, and the limit is where the two sides meet. -/
lemma DeltaRat.evalAt_le_evalAt {a b : DeltaRat} {δ : ℚ} (h : a ≤ b) (hδ : 0 < δ)
    (hlimit : ∀ limit, a.crossing? b = some limit → δ ≤ limit) : a.evalAt δ ≤ b.evalAt δ := by
  rw [evalAt, evalAt]
  rcases le_or_gt a.delta b.delta with hd | hd
  · have hmul := mul_le_mul_of_nonneg_right hd hδ.le
    have hreal : a.real ≤ b.real := (le_iff.1 h).elim le_of_lt fun h => h.1.le
    linarith
  · have hreal : a.real < b.real := (le_iff.1 h).resolve_right fun h => hd.not_ge h.2
    have hle := hlimit _ (by rw [crossing?, if_pos ⟨hreal, hd⟩])
    rw [le_div_iff₀ (sub_pos.2 hd), mul_sub] at hle
    linarith

namespace Tableau

/-- The least of a start and some limits is at most each of them, and is one of them. -/
lemma foldl_least (limits : List ℚ) : ∀ start : ℚ,
    let least := limits.foldl (fun least limit => if limit < least then limit else least) start
    least ≤ start ∧ (∀ limit ∈ limits, least ≤ limit) ∧ (least = start ∨ least ∈ limits) := by
  induction limits with
  | nil =>
    intro start
    simp
  | cons limit limits ih =>
    intro start
    obtain ⟨hstart, hrest, hmem⟩ := ih (if limit < start then limit else start)
    simp only [List.foldl_cons, List.mem_cons, forall_eq_or_imp]
    have hle : (if limit < start then limit else start) ≤ start ∧
        (if limit < start then limit else start) ≤ limit := by
      split_ifs with h
      · exact ⟨h.le, le_rfl⟩
      · exact ⟨le_rfl, not_lt.1 h⟩
    refine ⟨hstart.trans hle.1, ⟨hstart.trans hle.2, hrest⟩, ?_⟩
    rcases hmem with heq | hmem
    · rw [heq]
      split_ifs <;> simp
    · exact Or.inr (Or.inr hmem)

/-- The limits are those of the lower bounds and of the upper bounds. -/
lemma mem_deltaLimits {t : Tableau} {k : ℕ} {limit : ℚ} : limit ∈ t.deltaLimits k ↔
    (∃ b, t.lower[k]? = some b ∧ b.crossing? (t.value k) = some limit) ∨
      ∃ b, t.upper[k]? = some b ∧ (t.value k).crossing? b = some limit := by
  simp [deltaLimits, Option.bind_eq_some_iff]

lemma concreteDelta_le_one (t : Tableau) : t.concreteDelta ≤ 1 := (foldl_least _ 1).1

/-- The concrete `δ` is below all limits. -/
lemma concreteDelta_le {t : Tableau} {k : ℕ} (hk : k < t.size) {limit : ℚ}
    (h : limit ∈ t.deltaLimits k) : t.concreteDelta ≤ limit :=
  (foldl_least _ 1).2.1 limit (List.mem_flatMap.2 ⟨k, List.mem_range.2 hk, h⟩)

/-- The concrete `δ` is positive. -/
lemma concreteDelta_pos (t : Tableau) : 0 < t.concreteDelta := by
  rcases (foldl_least ((List.range t.size).flatMap t.deltaLimits) 1).2.2 with heq | hmem
  · rw [concreteDelta, heq]
    exact one_pos
  · obtain ⟨k, -, hlimit⟩ := List.mem_flatMap.1 hmem
    rcases mem_deltaLimits.1 hlimit with ⟨b, -, hb⟩ | ⟨b, -, hb⟩
    · exact DeltaRat.crossing?_pos hb
    · exact DeltaRat.crossing?_pos hb

/-- **At the concrete `δ`, and at any smaller one, a value that is within its bounds as a pair is
within them.** -/
lemma InBounds.evalAt {t : Tableau} {k : ℕ} (h : t.InBounds k (t.value k)) (hk : k < t.size) {δ : ℚ}
    (hδ : 0 < δ) (hle : δ ≤ t.concreteDelta) :
    (∀ b, t.lower[k]? = some b → b.evalAt δ ≤ (t.value k).evalAt δ) ∧
      ∀ b, t.upper[k]? = some b → (t.value k).evalAt δ ≤ b.evalAt δ := by
  refine ⟨fun b hb => ?_, fun b hb => ?_⟩
  · refine DeltaRat.evalAt_le_evalAt (h.1 b hb) hδ fun limit hlimit => ?_
    exact hle.trans (concreteDelta_le hk (mem_deltaLimits.2 (Or.inl ⟨b, hb, hlimit⟩)))
  · refine DeltaRat.evalAt_le_evalAt (h.2 b hb) hδ fun limit hlimit => ?_
    exact hle.trans (concreteDelta_le hk (mem_deltaLimits.2 (Or.inr ⟨b, hb, hlimit⟩)))

/-! ## The model -/

/-- The model gives each name the value of its variable at the concrete `δ`. -/
lemma model_get? (t : Tableau) (name : String) : t.model.get? name =
    (t.numbers[name]?).map fun k => (t.value k).evalAt t.concreteDelta :=
  Std.ExtTreeMap.getElem?_map

/-- **Rational values that agree with the model are allowed** if the values of the tableau are
within all bounds.

**Proof sketch.** Fixing `δ` turns the values into another solution of the slacks, made of rational
numbers. It is within the bounds at the concrete `δ`. As pairs the bounds are only weaker, since the
infinitesimal part of a bound never widens it beyond its rational part. -/
lemma HasLayout.allows_of_model {t : Tableau} (h : t.HasLayout) (hslacks : t.SolvesSlacks t.value)
    (hmeets : t.Meets t.value) {σ : String → ℚ}
    (hσ : ∀ name q, t.model.get? name = some q → σ name = q) :
    t.Allows fun name => DeltaRat.ofRat (σ name) := by
  set δ := t.concreteDelta
  have hδ : 0 < δ := t.concreteDelta_pos
  refine ⟨fun k => DeltaRat.ofRat ((t.value k).evalAt δ), ⟨fun name k hk => ?_, ?_⟩,
    meets_iff.2 ⟨fun k b hb => ?_, fun k b hb => ?_⟩⟩
  · rw [hσ name _ (by rw [model_get?, hk, Option.map_some])]
  · exact hslacks.map (DeltaRat.ofRat ∘ₗ DeltaRat.evalAtHom δ)
  · obtain ⟨hd, row, hrow⟩ := h.lower_bound k b hb
    exact DeltaRat.le_ofRat_of_evalAt_le hδ hd
      (((hmeets k).evalAt (h.slack_lt row k hrow) hδ le_rfl).1 b hb)
  · obtain ⟨hd, row, hrow⟩ := h.upper_bound k b hb
    exact DeltaRat.ofRat_le_of_le_evalAt hδ hd
      (((hmeets k).evalAt (h.slack_lt row k hrow) hδ le_rfl).2 b hb)

end Tableau

end ExactArith
