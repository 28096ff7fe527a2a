import ExactArith.Proofs.Linear.Form
import ExactArith.Proofs.Solver.Model
import ExactArith.Proofs.Solver.Session
import ExactArith.Proofs.Tableau.Concrete
import ExactArith.Proofs.Tableau.Termination
import ExactArith.Proofs.Translation.Linear
import Mathlib

set_option autoImplicit false
set_option relaxedAutoImplicit false

/-!
# Answers are right

Entering the assertions of a solver into a tableau asks of the values of the names exactly that each
assertion admits them, so the tableau allows rational values just when all constraints hold. The
values at the end of a feasible search therefore satisfy the constraints, and a contradiction,
before the search or at its end, excludes that any values do. A search that may make enough pivots
gives one of these answers.

## Main definitions

* `ExactArith.Assertion.Admits` — an assertion admits values of the names.
* `ExactArith.Solver.Describes` — what comes of entering assertions tells which values there are.

## Main results

* `ExactArith.Solver.describes_enter` — entering assertions collects their conditions.
* `ExactArith.Solver.holdsAt_of_solve_eq_sat` — a model satisfies all asserted constraints.
* `ExactArith.Solver.not_holdsAt_of_solve_eq_unsat` — without a solution no values do.
* `ExactArith.Solver.exists_budget_solve_eq_ok` — a large enough budget gives an answer.
-/

namespace ExactArith

/-! ## Assertions -/

namespace Assertion

/-- An assertion admits values of the names. -/
def Admits (a : Assertion) (σ : String → DeltaRat) : Prop :=
  a.constraint.relation.Admits (-a.form.constant) (a.form.coefficients.eval σ)

/-- **An assertion admits rational values exactly when its constraint holds.** -/
lemma admits_ofRat {a : Assertion} (h : a.constraint.form = .ok a.form) (σ : String → ℚ) :
    (a.Admits fun name => DeltaRat.ofRat (σ name)) ↔ a.constraint.HoldsAt σ := by
  rw [Admits, ← LinComb.map_eval, Relation.admits_ofRat, Constraint.holdsAt_iff h,
    LinearForm.value_eq, ← Relation.holds_sub, sub_neg_eq_add]

/-- An assertion with a constant form admits all values or none. -/
lemma admits_of_isConstant {a : Assertion} (h : a.form.isConstant = true)
    (σ : String → DeltaRat) :
    a.Admits σ ↔ a.constraint.relation.holds a.form.constant 0 = true := by
  have hz : a.form.coefficients.eval σ = DeltaRat.ofRat 0 := by
    rw [LinearForm.coefficients_of_isConstant h, LinComb.eval_empty, map_zero]
  rw [Admits, hz, Relation.admits_ofRat, ← Relation.holds_sub, sub_neg_eq_add, zero_add]

end Assertion

namespace Solver

/-! ## Entering assertions -/

/-- What comes of entering assertions tells for which values of the names a condition holds: those
that the tableau allows, and none if there is a contradiction. -/
def Describes (result : Except Contradiction Tableau) (p : (String → DeltaRat) → Prop) : Prop :=
  match result with
  | .ok t => t.IsBuilt ∧ ∀ σ, t.Allows σ ↔ p σ
  | .error _ => ∀ σ, ¬p σ

lemma Describes.congr {result : Except Contradiction Tableau} {p q : (String → DeltaRat) → Prop}
    (h : Describes result p) (hpq : ∀ σ, p σ ↔ q σ) : Describes result q := by
  cases result with
  | error contradiction => exact fun σ hq => h σ ((hpq σ).2 hq)
  | ok t => exact ⟨h.1, fun σ => (h.2 σ).trans (hpq σ)⟩

/-- **Entering assertions collects their conditions.**

**Proof sketch.** Induction on the assertions. One with a constant form admits all values or none.
Any other is one more condition on the values that the tableau allows; if it puts bounds on its
slack that exclude each other, there are no such values. -/
lemma describes_enter (assertions : List Assertion) :
    ∀ t : Tableau, t.IsBuilt → (∀ a ∈ assertions, a.constraint.form = .ok a.form) →
      Describes (enter assertions t).result
        fun σ => t.Allows σ ∧ ∀ a ∈ assertions, a.Admits σ := by
  induction assertions with
  | nil =>
    intro t ht _
    exact ⟨ht, fun σ => by simp⟩
  | cons a assertions ih =>
    intro t ht hforms
    have hform := hforms a List.mem_cons_self
    have hrest := fun b hb => hforms b (List.mem_cons_of_mem a hb)
    have hred := Constraint.isReduced_form hform
    rw [enter]
    split_ifs with hconst hholds
    · refine (ih t ht hrest).congr fun σ => ?_
      rw [List.forall_mem_cons, Assertion.admits_of_isConstant hconst]
      simp [hholds]
    · intro σ hσ
      exact hholds ((Assertion.admits_of_isConstant hconst σ).1 (hσ.2 a List.mem_cons_self))
    · have hallows := ht.isFresh.allows_assert hred a.constraint.relation
      dsimp only
      split_ifs with hconflict
      · -- the values of the names give the slack a value, which its bounds leave no room for
        intro σ hσ
        obtain ⟨x, -, hmeets⟩ := (hallows σ).2 ⟨hσ.1, hσ.2 a List.mem_cons_self⟩
        exact Tableau.not_inBounds_of_isConflicting hconflict _ (hmeets _)
      · refine (ih _ (.assert ht hred (Bool.not_eq_true _ ▸ hconflict)) hrest).congr fun σ => ?_
        rw [hallows, List.forall_mem_cons, and_assoc]
        rfl

/-- Rational values are admitted by all assertions exactly when all constraints hold. -/
lemma HasForms.admits_iff {s : Solver} (h : s.HasForms) (σ : String → ℚ) :
    (∀ a ∈ s.asserted, a.Admits fun name => DeltaRat.ofRat (σ name)) ↔
      ∀ c ∈ s.constraints, c.HoldsAt σ := by
  rw [constraints, List.forall_mem_map]
  exact forall₂_congr fun a ha => Assertion.admits_ofRat (h a ha) σ

/-- What comes of entering the assertions of a solver describes the values that they admit. -/
lemma HasForms.describes {s : Solver} (h : s.HasForms) :
    Describes (enter s.asserted ∅).result fun σ => ∀ a ∈ s.asserted, a.Admits σ :=
  (describes_enter s.asserted ∅ .empty h).congr fun σ => and_iff_right (Tableau.allows_empty σ)

/-- **The tableau of a solver is ready for the search, and allows rational values exactly when all
constraints hold.** -/
lemma HasForms.of_ok {s : Solver} (h : s.HasForms) {t : Tableau}
    (ht : (enter s.asserted ∅).result = .ok t) :
    t.WellFormed ∧ ∀ σ : String → ℚ,
      (t.Allows fun name => DeltaRat.ofRat (σ name)) ↔ ∀ c ∈ s.constraints, c.HoldsAt σ := by
  have hdescribes := h.describes
  rw [ht] at hdescribes
  obtain ⟨hbuilt, hallows⟩ := hdescribes
  exact ⟨hbuilt.isFresh.wellFormed hbuilt.isConsistent,
    fun σ => (hallows _).trans (h.admits_iff σ)⟩

/-- **A contradiction excludes that all constraints hold.** -/
lemma HasForms.of_error {s : Solver} (h : s.HasForms) {contradiction : Contradiction}
    (ht : (enter s.asserted ∅).result = .error contradiction) (σ : String → ℚ) :
    ¬∀ c ∈ s.constraints, c.HoldsAt σ := by
  have hdescribes := h.describes
  rw [ht] at hdescribes
  exact fun hσ => hdescribes _ ((h.admits_iff σ).2 hσ)

/-! ## Conclusions -/

section Solve

variable {s : Solver}

/-- A contradiction found while the assertions are entered decides the question. -/
lemma solve_of_error {contradiction : Contradiction}
    (h : (enter s.asserted ∅).result = .error contradiction) : s.solve = .ok .unsat := by
  rw [solve, conclude, search, h]
  rfl

/-- Otherwise the ending of the search does. -/
lemma solve_of_ok {t : Tableau} (h : (enter s.asserted ∅).result = .ok t) :
    s.solve = match (t.run s.budget).ending with
      | .feasible => .ok (.sat (s.completeModel (t.run s.budget).final))
      | .noRepair _ => .ok .unsat
      | .exhausted => .error (.pivotLimit s.budget) := by
  rw [solve, conclude, search, h]
  rfl

/-- A model comes from a feasible search in the tableau of the assertions. -/
lemma solve_eq_sat {m : Model} (h : s.solve = .ok (.sat m)) :
    ∃ t, (enter s.asserted ∅).result = .ok t ∧ (t.run s.budget).ending = .feasible ∧
      m = s.completeModel (t.run s.budget).final := by
  cases hresult : (enter s.asserted ∅).result with
  | error contradiction => simp [solve_of_error hresult] at h
  | ok t =>
    rw [solve_of_ok hresult] at h
    refine ⟨t, rfl, ?_⟩
    split at h
    · next hending => exact ⟨hending, (Verdict.sat.inj (Except.ok.inj h)).symm⟩
    · simp at h
    · simp at h

/-- That there is no solution comes from a contradiction or from a row without a repair. -/
lemma solve_eq_unsat (h : s.solve = .ok .unsat) :
    (∃ contradiction, (enter s.asserted ∅).result = .error contradiction) ∨
      ∃ t basic, (enter s.asserted ∅).result = .ok t ∧
        (t.run s.budget).ending = .noRepair basic := by
  cases hresult : (enter s.asserted ∅).result with
  | error contradiction => exact Or.inl ⟨contradiction, rfl⟩
  | ok t =>
    rw [solve_of_ok hresult] at h
    split at h
    · simp at h
    · next basic hending => exact Or.inr ⟨t, basic, rfl, hending⟩
    · simp at h

/-- The model of a solver gives each of its variables a value. -/
lemma completeModel_isSome {t : Tableau} {name : String} (h : name ∈ s.vars) :
    ((s.completeModel t).get? name).isSome = true := by
  rw [completeModel_get?, if_pos h]
  cases t.model.get? name <;> rfl

/-- **The model of a feasible search satisfies the constraints.**

**Proof sketch.** The values of the last tableau are a solution of the slacks within all bounds, so
the bounds allow every assignment that agrees with the model of the tableau. Completing the model
keeps the values that it has. -/
lemma HasForms.holdsAt_completeModel (h : s.HasForms) {t : Tableau}
    (ht : (enter s.asserted ∅).result = .ok t) (hending : (t.run s.budget).ending = .feasible) :
    ∀ c ∈ s.constraints, c.HoldsAt (s.completeModel (t.run s.budget).final).assignment := by
  obtain ⟨hwf, hallows⟩ := h.of_ok ht
  obtain ⟨hwf', hsame⟩ := hwf.run s.budget
  have hmeets := hsame.meets_iff.2 (hwf.meets_of_ending_eq_feasible hending)
  have hslacks := (hwf'.solvesRows_iff DeltaRat _).1 hwf'.value_solves
  -- the bounds are those of the first tableau, the values are those of the last
  rw [← hallows, ← hsame.allows_iff]
  refine hwf'.toHasLayout.allows_of_model hslacks hmeets fun name q hq => ?_
  refine Model.assignment_eq_of_get? ?_
  rw [completeModel_get?, hq, Option.some_or]

/-- **If the search finds no repair, not all constraints hold.** -/
lemma HasForms.not_holdsAt_of_noRepair (h : s.HasForms) {t : Tableau} {basic : ℕ}
    (ht : (enter s.asserted ∅).result = .ok t)
    (hending : (t.run s.budget).ending = .noRepair basic) (σ : String → ℚ) :
    ¬∀ c ∈ s.constraints, c.HoldsAt σ := by
  obtain ⟨hwf, hallows⟩ := h.of_ok ht
  rw [← hallows]
  rintro ⟨x, hpoint, hmeets⟩
  exact hwf.not_meets_of_ending_eq_noRepair hending hpoint.slack hmeets

/-- **A large enough budget gives an answer**: the tableau of the assertions does not depend on the
budget, and the search in it ends. -/
lemma HasForms.exists_budget (h : s.HasForms) :
    ∃ N, ∀ budget ≥ N, ∃ verdict, (s.withBudget budget).solve = .ok verdict := by
  cases hresult : (enter s.asserted ∅).result with
  | error contradiction => exact ⟨0, fun budget _ => ⟨.unsat, solve_of_error hresult⟩⟩
  | ok t =>
    obtain ⟨N, hN⟩ := (h.of_ok hresult).1.exists_budget
    refine ⟨N, fun budget hbudget => ?_⟩
    have hending := (hN budget hbudget).1
    have hsolve := solve_of_ok (s := s.withBudget budget) hresult
    rw [hsolve]
    change (t.run budget).ending ≠ _ at hending
    split
    · exact ⟨_, rfl⟩
    · exact ⟨_, rfl⟩
    · next hexhausted => exact absurd hexhausted hending

end Solve

/-! ## Answers -/

/-- **A model satisfies all asserted constraints**, whatever the solver was asked before and
whatever its budget: each variable of a constraint has a value, both sides have values there, and
these compare as the constraint says. For the constraint between two expressions this means that
both expressions evaluate under the model, to values that compare in this way. -/
theorem holdsAt_of_solve_eq_sat (budget : ℕ) (requests : List Request) (m : Model)
    (h : (after budget requests).solve = .ok (.sat m)) :
    ∀ c ∈ (after budget requests).constraints,
      (∀ name ∈ c.vars, (m.get? name).isSome = true) ∧ c.HoldsAt m.assignment ∧
        ∀ (questions : List Context.Request) (left : Expr) (relation : Relation) (right : Expr),
          ((Context.after linearBackend questions).constraint linearBackend left relation right).1 =
            .ok c →
          ∃ x y, left.evaluate m.toBinding = .ok x ∧ right.evaluate m.toBinding = .ok y ∧
            relation.holds x y = true := by
  intro c hc
  obtain ⟨t, ht, hending, rfl⟩ := solve_eq_sat h
  have hholds := (hasForms_after budget requests).holdsAt_completeModel ht hending c hc
  have hvars : ∀ name ∈ c.vars, (((after budget requests).completeModel
      (t.run (after budget requests).budget).final).get? name).isSome = true :=
    fun name hname => completeModel_isSome (mem_vars_iff.2 ⟨c, hc, hname⟩)
  refine ⟨hvars, hholds, fun questions left relation right hbuilt => ?_⟩
  obtain rfl := Context.constraint_eq_ok questions hbuilt
  obtain ⟨x, y, hx, hy, hxy⟩ := hholds
  refine ⟨x, y, Model.evaluate_toBinding (fun name hname => hvars name ?_) hx,
    Model.evaluate_toBinding (fun name hname => hvars name ?_) hy, hxy⟩
  · exact Std.ExtTreeSet.mem_union_of_left ((Expr.mem_vars_toTerm left).2 hname)
  · exact Std.ExtTreeSet.mem_union_of_right ((Expr.mem_vars_toTerm right).2 hname)

/-- The model for `x + y > 2` and `x < y` evaluates `x` to a smaller number than `y`. -/
theorem holdsAt_of_solve_eq_sat_sum :
    (after 5 [.add ⟨.node .add (.var "x") (.var "y"), .gt, .lit 2⟩,
      .add ⟨.var "x", .lt, .var "y"⟩]).solve = .ok (.sat (Model.ofList [("x", 1), ("y", 2)])) ∧
    ∃ x y, (Expr.symbol "x").evaluate (Model.ofList [("x", 1), ("y", 2)]).toBinding = .ok x ∧
      (Expr.symbol "y").evaluate (Model.ofList [("x", 1), ("y", 2)]).toBinding = .ok y ∧
      Relation.lt.holds x y = true := by
  have hsolve : (after 5 [.add ⟨.node .add (.var "x") (.var "y"), .gt, .lit 2⟩,
      .add ⟨.var "x", .lt, .var "y"⟩]).solve = .ok (.sat (Model.ofList [("x", 1), ("y", 2)])) := by
    cbv
  obtain ⟨-, -, hevaluate⟩ := holdsAt_of_solve_eq_sat 5 _ _ hsolve ⟨.var "x", .lt, .var "y"⟩
    (by decide +kernel)
  exact ⟨hsolve, hevaluate [] (.symbol "x") .lt (.symbol "y") (by cbv)⟩

/-- **Without a solution no values satisfy the constraints**, whichever of the three contradictions
was found: a constraint between constants that does not hold, bounds of a slack that exclude each
other, or a row that admits no repair. -/
theorem not_holdsAt_of_solve_eq_unsat (budget : ℕ) (requests : List Request)
    (h : (after budget requests).solve = .ok .unsat) :
    ¬∃ σ : String → ℚ, ∀ c ∈ (after budget requests).constraints, c.HoldsAt σ := by
  rintro ⟨σ, hσ⟩
  have hforms := hasForms_after budget requests
  rcases solve_eq_unsat h with ⟨contradiction, ht⟩ | ⟨t, basic, ht, hending⟩
  · exact hforms.of_error ht σ hσ
  · exact hforms.not_holdsAt_of_noRepair ht hending σ hσ

/-- No values satisfy `x < y`, `y < z` and `z ≤ x`. -/
theorem not_holdsAt_of_solve_eq_unsat_cycle :
    (after 5 [.add ⟨.var "x", .lt, .var "y"⟩, .add ⟨.var "y", .lt, .var "z"⟩,
      .add ⟨.var "z", .le, .var "x"⟩]).solve = .ok .unsat ∧
    ¬∃ σ : String → ℚ, ∀ c ∈ (after 5 [.add ⟨.var "x", .lt, .var "y"⟩,
      .add ⟨.var "y", .lt, .var "z"⟩, .add ⟨.var "z", .le, .var "x"⟩]).constraints,
        c.HoldsAt σ := by
  have hsolve : (after 5 [.add ⟨.var "x", .lt, .var "y"⟩, .add ⟨.var "y", .lt, .var "z"⟩,
      .add ⟨.var "z", .le, .var "x"⟩]).solve = .ok .unsat := by
    cbv
  exact ⟨hsolve, not_holdsAt_of_solve_eq_unsat 5 _ hsolve⟩

/-- **A large enough budget gives an answer**, for every list of requests. The search itself makes
finitely many pivots from every tableau that assertions build without a contradiction.

**Proof sketch.** The assertions do not depend on the budget, and neither does the tableau in which
the search starts. -/
theorem exists_budget_solve_eq_ok :
    (∀ requests : List Request, ∃ N, ∀ budget ≥ N, ∃ verdict,
      (after budget requests).solve = .ok verdict) ∧
    ∀ t : Tableau, t.IsBuilt → ∃ N, ∀ budget ≥ N,
      (t.run budget).ending ≠ .exhausted ∧ (t.run budget).pivots.length ≤ N := by
  refine ⟨fun requests => ?_, fun t ht => (ht.isFresh.wellFormed ht.isConsistent).exists_budget⟩
  obtain ⟨N, hN⟩ := (hasForms_after 0 requests).exists_budget
  refine ⟨N, fun budget hbudget => ?_⟩
  rw [← after_withBudget 0 budget]
  exact hN budget hbudget

/-- From the tableau of `x + y ≥ 2` and `x < 0` the search takes two pivots to a feasible end, and a
budget of one is too small for it. -/
theorem exists_budget_solve_eq_ok_two :
    (((Tableau.assert ∅ ⟨(LinComb.single "x").addAt "y" 1, -2⟩ .ge).2.assert (.ofVariable "x")
      .lt).2.run 1).ending = .exhausted ∧
    (((Tableau.assert ∅ ⟨(LinComb.single "x").addAt "y" 1, -2⟩ .ge).2.assert (.ofVariable "x")
      .lt).2.run 2).ending = .feasible ∧
    (((Tableau.assert ∅ ⟨(LinComb.single "x").addAt "y" 1, -2⟩ .ge).2.assert (.ofVariable "x")
      .lt).2.run 2).pivots.length = 2 ∧
    ∃ N, ∀ budget ≥ N,
      (((Tableau.assert ∅ ⟨(LinComb.single "x").addAt "y" 1, -2⟩ .ge).2.assert (.ofVariable "x")
        .lt).2.run budget).ending ≠ .exhausted ∧
      (((Tableau.assert ∅ ⟨(LinComb.single "x").addAt "y" 1, -2⟩ .ge).2.assert (.ofVariable "x")
        .lt).2.run budget).pivots.length ≤ N := by
  have hsum : (⟨(LinComb.single "x").addAt "y" 1, -2⟩ : LinearForm).IsReduced :=
    (LinComb.isReduced_single "x").addAt "y" 1
  have hbuilt : ((Tableau.assert ∅ ⟨(LinComb.single "x").addAt "y" 1, -2⟩ .ge).2.assert
      (.ofVariable "x") .lt).2.IsBuilt :=
    .assert (.assert .empty hsum (by decide +kernel)) (LinearForm.isReduced_ofVariable "x")
      (by decide +kernel)
  exact ⟨by decide +kernel, by decide +kernel, by decide +kernel,
    exists_budget_solve_eq_ok.2 _ hbuilt⟩

end Solver

end ExactArith
