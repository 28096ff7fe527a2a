import ExactArith.Proofs.Solver.Model
import ExactArith.Proofs.Tableau.StoredZeros
import ExactArith.Proofs.Tableau.Tightness

set_option autoImplicit false
set_option relaxedAutoImplicit false

/-!
# Strict comparisons at the concrete infinitesimal

If every value is within its bounds as a pair, the concrete `δ` keeps all of them there at once, and
so does every smaller one. A strict comparison asks for an infinitesimal distance from its number,
which becomes a positive one, so at the concrete `δ` the comparisons hold as they were asserted. The
limits on `δ` are quotients whose divisors are positive, so none of them is by zero; this is stated
for a form of the computation that gives up where a divisor is zero.

## Main definitions

* `ExactArith.Tableau.concreteDelta?` — the concrete `δ`, given up at a quotient by zero.

## Main results

* `ExactArith.Tableau.concreteDelta?_eq` — it is never given up.
* `ExactArith.Tableau.IsTightest.admits` — between tightest bounds for a positive `δ`, comparisons
  hold.
* `ExactArith.Tableau.eval_model` — the model gives a combination the value of its slack.
* `ExactArith.Tableau.concreteDelta_safe` — the concrete `δ` is positive, at most one, and safe.
-/

namespace ExactArith

/-! ## Quotients -/

/-- A quotient, given up where the divisor is zero. -/
def quotient? (x y : ℚ) : Option ℚ := if y = 0 then none else some (x / y)

/-- Lowers `δ` to the limit up to which `a` stays at most `b`, if there is one. -/
def DeltaRat.lowerTo? (a b : DeltaRat) (δ : ℚ) : Option ℚ :=
  if a.real < b.real ∧ b.delta < a.delta then
    (quotient? (b.real - a.real) (a.delta - b.delta)).map fun limit =>
      if limit < δ then limit else δ
  else
    some δ

/-- The divisor of a limit is not zero. -/
lemma DeltaRat.lowerTo?_eq (a b : DeltaRat) (δ : ℚ) :
    a.lowerTo? b δ = some ((a.crossing? b).elim δ fun limit => if limit < δ then limit else δ) := by
  rw [lowerTo?, crossing?]
  split_ifs with h
  · rw [quotient?, if_neg (sub_pos.2 h.2).ne']
    rfl
  · rfl

namespace Tableau

/-- Lowers `δ` to the limits that the bounds of a variable put on it. -/
def lowerDelta? (t : Tableau) (δ : ℚ) (k : ℕ) : Option ℚ := do
  let δ ← (t.lower[k]?).elim (some δ) fun lower => lower.lowerTo? (t.value k) δ
  (t.upper[k]?).elim (some δ) fun upper => (t.value k).lowerTo? upper δ

/-- The smallest limit on `δ`, or one if that is smaller, given up at a quotient by zero. -/
def concreteDelta? (t : Tableau) : Option ℚ := (List.range t.size).foldlM t.lowerDelta? 1

lemma lowerDelta?_eq (t : Tableau) (δ : ℚ) (k : ℕ) :
    t.lowerDelta? δ k = some ((t.deltaLimits k).foldl
      (fun least limit => if limit < least then limit else least) δ) := by
  rw [lowerDelta?, deltaLimits, List.foldl_append]
  cases t.lower[k]? <;> cases t.upper[k]? <;> simp [DeltaRat.lowerTo?_eq]

/-- **No quotient is by zero.** -/
lemma concreteDelta?_eq (t : Tableau) : t.concreteDelta? = some t.concreteDelta := by
  rw [concreteDelta?, concreteDelta, List.foldl_flatMap,
    show t.lowerDelta? = fun δ k => pure ((t.deltaLimits k).foldl _ δ) from
      funext fun δ => funext fun k => t.lowerDelta?_eq δ k]
  exact List.foldlM_pure

/-! ## Comparisons -/

section Comparisons

variable {t : Tableau} {cs : List Comparison} {c : Comparison}

/-- **Between tightest bounds for a positive `δ`, comparisons hold**: the infinitesimal part of a
bound keeps a strict one away from its number. -/
lemma IsTightest.admits {k : ℕ} {d : LinComb String} (h : t.IsTightest k cs d) {δ q : ℚ}
    (hδ : 0 < δ) (hlower : ∀ b, t.lower[k]? = some b → b.evalAt δ ≤ q)
    (hupper : ∀ b, t.upper[k]? = some b → q ≤ b.evalAt δ) (hc : c ∈ cs)
    (hcd : c.form.coefficients = d) : c.Admits q := by
  refine Comparison.admits_iff.2 ⟨fun l hl => ?_, fun u hu => ?_⟩
  · have hmem := Comparison.mem_lowerBounds.2 ⟨c, hc, hcd, hl⟩
    obtain ⟨b, hb⟩ := Option.isSome_iff_exists.1 (List.isSome_max?_of_mem hmem)
    obtain ⟨hbmem, hgreatest⟩ := List.max?_eq_some_iff.1 hb
    have hbq := DeltaRat.le_ofRat_of_evalAt_le hδ
      (Comparison.delta_nonneg_of_mem_lowerBounds hbmem) (hlower b (h.lower_eq.trans hb))
    exact (hgreatest l hmem).trans hbq
  · have hmem := Comparison.mem_upperBounds.2 ⟨c, hc, hcd, hu⟩
    obtain ⟨b, hb⟩ := Option.isSome_iff_exists.1 (List.isSome_min?_of_mem hmem)
    obtain ⟨hbmem, hsmallest⟩ := List.min?_eq_some_iff.1 hb
    have hqb := DeltaRat.ofRat_le_of_le_evalAt hδ
      (Comparison.delta_nonpos_of_mem_upperBounds hbmem) (hupper b (h.upper_eq.trans hb))
    exact hqb.trans (hsmallest u hmem)

/-- Without the zeros, the slack of a combination is that of the combination without its zeros. -/
lemma isSlackOf_dropZeros (hc : c ∈ cs) :
    (assertAll ∅ cs).dropZeros.IsSlackOf ((assertAll ∅ cs).slackOf c.form.coefficients)
      c.form.coefficients.dropZeros := by
  rw [← slackOf_assertAll_mapCoeffs]
  obtain ⟨row, hslack, hrow⟩ := (keeps_awayFromZero cs).isSlackOf_slackOf (List.mem_map_of_mem hc)
  obtain ⟨r, hr, rfl⟩ := mem_slacks_mapCoeffs.1 hslack
  exact ⟨r.dropZeros, mem_slacks_dropZeros.2 ⟨r, hr, rfl⟩,
    hrow.dropZeros_of_mapCoeffs awayFromZero_injective awayFromZero_ne_zero⟩

lemma slackOf_lt_size (hc : c ∈ cs) :
    (assertAll ∅ cs).slackOf c.form.coefficients < (assertAll ∅ cs).size := by
  obtain ⟨row, hslack, -⟩ := isSlackOf_dropZeros hc
  exact (isFresh_dropZeros cs).slack_lt row _ hslack

/-- **Where the slacks have the values of their rows, each has that of its combination.** -/
lemma SolvesSlacks.slackOf_eq {V : Type} [AddCommGroup V] [Module ℚ V] {x : ℕ → V}
    (hx : (assertAll ∅ cs).SolvesSlacks x) (hc : c ∈ cs) :
    x ((assertAll ∅ cs).slackOf c.form.coefficients) =
      c.form.coefficients.eval ((assertAll ∅ cs).valuesOfNames x) := by
  obtain ⟨row, hslack, hrow⟩ := isSlackOf_dropZeros hc
  rw [solvesSlacks_dropZeros_iff.2 hx row _ hslack,
    hrow.eval_eq (isFresh_dropZeros cs).toHasLayout, LinComb.eval_dropZeros]
  rfl

/-- The model gives a combination the value of its slack at the concrete `δ`. -/
lemma eval_model (hsame : (assertAll ∅ cs).SameSystem t) (hx : t.SolvesSlacks t.value)
    (hc : c ∈ cs) : c.form.coefficients.eval t.model.assignment =
      (t.value ((assertAll ∅ cs).slackOf c.form.coefficients)).evalAt t.concreteDelta := by
  have hδ := (hsame.solvesSlacks_iff.1 hx).map (DeltaRat.evalAtHom t.concreteDelta)
  refine (LinComb.eval_congr fun name hname => ?_).trans (hδ.slackOf_eq hc).symm
  obtain ⟨row, -, hrow⟩ := isSlackOf_dropZeros hc
  rw [← LinComb.coeff_dropZeros] at hname
  obtain ⟨k, hk⟩ := hrow.numbered name hname
  change (assertAll ∅ cs).numbers[name]? = some k at hk
  rw [Model.assignment_eq_of_get? (by rw [model_get?, hsame.numbers, hk, Option.map_some]),
    valuesOfNames, Std.ExtTreeMap.getD_eq_getD_getElem?, hk]
  rfl

/-- Values within all bounds show that no bounds exclude each other. -/
lemma isConsistent_of_inBounds (hsame : (assertAll ∅ cs).SameSystem t)
    (h : ∀ k < t.size, t.InBounds k (t.value k)) : (assertAll ∅ cs).IsConsistent := by
  intro k l u hl hu
  obtain ⟨-, row, hrow⟩ := (isFresh_dropZeros cs).lower_bound k l hl
  have hk : k < t.size := hsame.size ▸ (isFresh_dropZeros cs).slack_lt row k hrow
  rw [← hsame.lower] at hl
  rw [← hsame.upper] at hu
  exact ((h k hk).1 l hl).trans ((h k hk).2 u hu)

end Comparisons

/-- **The concrete `δ` is positive and safe.** Let the values of all variables be within their
bounds as pairs. Then the concrete `δ` is positive and at most one, and no quotient by zero is
needed for it. At every positive number that is no greater, all values are within their bounds. If
the bounds are those of some comparisons, then each of these holds of the value that its slack has
at the concrete `δ`, strictly if it is strict; and if the search has led to the values, without
inverting zero, then it holds in the model.

**Proof sketch.** The concrete `δ` does not exceed the number at which a value meets its bound. The
bounds of a slack are the tightest ones of its comparisons, and for a positive `δ` each asks for at
least what its comparison does. A search keeps the values a solution of the slacks, so the model
gives a combination the value of its slack. -/
theorem concreteDelta_safe {t : Tableau} (h : ∀ k < t.size, t.InBounds k (t.value k)) :
    (0 < t.concreteDelta ∧ t.concreteDelta ≤ 1 ∧ t.concreteDelta? = some t.concreteDelta) ∧
    (∀ e, 0 < e → e ≤ t.concreteDelta → ∀ k < t.size,
      (∀ b, t.lower[k]? = some b → b.evalAt e ≤ (t.value k).evalAt e) ∧
        ∀ b, t.upper[k]? = some b → (t.value k).evalAt e ≤ b.evalAt e) ∧
    (∀ cs, (assertAll ∅ cs).SameSystem t → ∀ c ∈ cs,
      c.Admits ((t.value ((assertAll ∅ cs).slackOf c.form.coefficients)).evalAt t.concreteDelta)) ∧
    ∀ cs budget, (assertAll ∅ cs).invertsZeroWithin budget = false →
      t = ((assertAll ∅ cs).run budget).final → ∀ c ∈ cs, c.HoldsAt t.model.assignment := by
  have hδ := t.concreteDelta_pos
  have hadmits : ∀ cs, (assertAll ∅ cs).SameSystem t → ∀ c ∈ cs,
      c.Admits ((t.value ((assertAll ∅ cs).slackOf c.form.coefficients)).evalAt
        t.concreteDelta) := by
    intro cs hsame c hc
    have hk : (assertAll ∅ cs).slackOf c.form.coefficients < t.size :=
      hsame.size ▸ slackOf_lt_size hc
    obtain ⟨hlower, hupper⟩ := (h _ hk).evalAt hk hδ le_rfl
    rw [hsame.lower] at hlower
    rw [hsame.upper] at hupper
    exact (isTightest_assertAll hc).admits hδ hlower hupper hc rfl
  refine ⟨⟨hδ, t.concreteDelta_le_one, t.concreteDelta?_eq⟩,
    fun e he hle k hk => (h k hk).evalAt hk he hle, hadmits, fun cs budget hz ht c hc => ?_⟩
  have hsame : (assertAll ∅ cs).SameSystem t := by
    rw [ht]
    exact sameSystem_of_reaches (run_reaches budget _).1
  have hsolves : t.SolvesSlacks t.value := by
    rw [hsame.solvesSlacks_iff, ht]
    exact solvesSlacks_run (isConsistent_of_inBounds hsame h) hz
  rw [Comparison.holdsAt_iff, eval_model hsame hsolves hc]
  exact hadmits cs hsame c hc

/-- For `0 < x` and `x < 1`, the value of `x` is `δ` after one pivot, and the model gives it one
half. -/
theorem concreteDelta_safe_interval :
    ((assertAll ∅ [⟨⟨.single "x", 0⟩, .gt⟩, ⟨⟨.single "x", -1⟩, .lt⟩]).run 1).final.concreteDelta =
      1 / 2 ∧
    ∀ c ∈ [(⟨⟨.single "x", 0⟩, .gt⟩ : Comparison), ⟨⟨.single "x", -1⟩, .lt⟩], c.HoldsAt
      ((assertAll ∅ [⟨⟨.single "x", 0⟩, .gt⟩, ⟨⟨.single "x", -1⟩, .lt⟩]).run
        1).final.model.assignment := by
  have hviolated : ∀ k < ((assertAll ∅ [⟨⟨.single "x", 0⟩, .gt⟩,
      ⟨⟨.single "x", -1⟩, .lt⟩]).run 1).final.size,
      (((assertAll ∅ [⟨⟨.single "x", 0⟩, .gt⟩,
        ⟨⟨.single "x", -1⟩, .lt⟩]).run 1).final.violated? k).isNone = true := by
    decide +kernel
  obtain ⟨-, -, -, hmodel⟩ := concreteDelta_safe fun k hk =>
    inBounds_of_violated?_eq_none (Option.isNone_iff_eq_none.1 (hviolated k hk))
  exact ⟨by decide +kernel, hmodel _ 1 (by decide +kernel) rfl⟩

end Tableau

end ExactArith
