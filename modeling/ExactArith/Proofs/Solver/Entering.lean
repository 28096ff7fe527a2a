import ExactArith.Proofs.Solver.Answer
import ExactArith.Proofs.Tableau.Assertions

set_option autoImplicit false
set_option relaxedAutoImplicit false

/-!
# The tableau of a list of assertions

Entering assertions into an empty tableau asserts the comparisons of those whose forms are not
constant, one after the other, and checks the others. If there is no contradiction, the tableau is
therefore a record of the comparisons, and its bounds do not exclude each other.

## Main definitions

* `ExactArith.Solver.comparisons` — the comparisons that assertions enter into a tableau.

## Main results

* `ExactArith.Solver.enter_eq_ok` — the tableau is made by asserting the comparisons.
* `ExactArith.Solver.result_enter_append` — a list of assertions is entered part by part.
* `ExactArith.Solver.keeps_of_enter`, `ExactArith.Solver.stemsFrom_of_enter`,
  `ExactArith.Solver.isConsistent_of_enter` — what is known of the tableau.
-/

namespace ExactArith

/-- The comparison of an assertion's form with zero. -/
def Assertion.comparison (a : Assertion) : Comparison := ⟨a.form, a.constraint.relation⟩

namespace Solver

/-- The comparisons that assertions enter into a tableau: forms that are constant are left out. -/
def comparisons (assertions : List Assertion) : List Comparison :=
  (assertions.filter fun a => !a.form.isConstant).map Assertion.comparison

lemma mem_comparisons {assertions : List Assertion} {c : Comparison} : c ∈ comparisons assertions ↔
    ∃ a ∈ assertions, a.form.isConstant = false ∧ a.comparison = c := by
  simp [comparisons, and_assoc]

/-- **Without a contradiction, entering assertions is asserting their comparisons**, and those with
constant forms hold. -/
lemma enter_eq_ok {assertions : List Assertion} {t u : Tableau}
    (h : (enter assertions t).result = .ok u) :
    u = t.assertAll (comparisons assertions) ∧ ∀ a ∈ assertions, a.form.isConstant = true →
      a.constraint.relation.holds a.form.constant 0 = true := by
  induction assertions generalizing t with
  | nil => exact ⟨(Except.ok.inj h).symm, fun _ ha => absurd ha List.not_mem_nil⟩
  | cons a assertions ih =>
    rw [enter] at h
    split_ifs at h with hconst hholds
    · obtain ⟨htableau, hrest⟩ := ih h
      refine ⟨?_, List.forall_mem_cons.2 ⟨fun _ => hholds, hrest⟩⟩
      rw [htableau, comparisons, comparisons, List.filter_cons_of_neg (by simp [hconst])]
    · dsimp only at h
      split_ifs at h with hconflict
      obtain ⟨htableau, hrest⟩ := ih h
      refine ⟨?_, List.forall_mem_cons.2 ⟨fun hconst' => absurd hconst' hconst, hrest⟩⟩
      rw [htableau, comparisons, comparisons, List.filter_cons_of_pos (by simp [hconst])]
      rfl

/-- A list of assertions is entered part by part, up to the first contradiction. -/
lemma result_enter_append (first second : List Assertion) (t : Tableau) :
    (enter (first ++ second) t).result =
      (enter first t).result.bind fun u => (enter second u).result := by
  induction first generalizing t with
  | nil => rfl
  | cons a first ih =>
    rw [List.cons_append, enter, enter]
    split_ifs
    · exact ih t
    · rfl
    · dsimp only
      split_ifs
      · rfl
      · exact ih _

section Record

variable {assertions : List Assertion} (hforms : ∀ a ∈ assertions, a.constraint.form = .ok a.form)

include hforms in
lemma isReduced_of_mem_comparisons : ∀ c ∈ comparisons assertions, c.form.IsReduced := by
  intro c hc
  obtain ⟨a, ha, -, rfl⟩ := mem_comparisons.1 hc
  exact Constraint.isReduced_form (hforms a ha)

variable {t : Tableau} (ht : (enter assertions ∅).result = .ok t)

include hforms ht

/-- **The tableau keeps the comparisons of the assertions.** -/
lemma keeps_of_enter : t.Keeps (comparisons assertions) := by
  rw [(enter_eq_ok ht).1]
  exact Tableau.keeps_assertAll (isReduced_of_mem_comparisons hforms)

/-- **Its names and slacks come from these comparisons.** -/
lemma stemsFrom_of_enter : t.StemsFrom (comparisons assertions) := by
  rw [(enter_eq_ok ht).1]
  exact Tableau.stemsFrom_assertAll (isReduced_of_mem_comparisons hforms)

/-- **Its bounds do not exclude each other**, since no assertion contradicted an earlier one. -/
lemma isConsistent_of_enter : t.IsConsistent := by
  have hdescribes := describes_enter assertions ∅ .empty hforms
  rw [ht] at hdescribes
  exact hdescribes.1.isConsistent

end Record

end Solver

end ExactArith
