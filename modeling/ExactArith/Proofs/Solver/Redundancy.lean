import ExactArith.Proofs.Solver.Budget
import ExactArith.Proofs.Solver.Entering

set_option autoImplicit false
set_option relaxedAutoImplicit false

/-!
# Redundant constraints

A constraint that holds whatever the values, or that follows from the earlier ones about the same
combination of names, leaves the tableau as it is: it is not entered, or its combination has a slack
and the bounds of this slack are as tight already. So the search makes the same pivots with and
without it, and the answer is the same up to the names that no other constraint has, which are zero.

## Main definitions

* `ExactArith.Constraint.IsRedundant` — a constraint says nothing that earlier ones do not.
* `ExactArith.Verdict.withZeros` — a model is completed by zero for some names.

## Main results

* `ExactArith.Solver.result_enter_redundant` — entering a redundant constraint changes nothing.
* `ExactArith.Solver.solve_insert_redundant` — a redundant constraint does not change an answer.
-/

namespace ExactArith

/-! ## Redundancy -/

/-- A constraint says nothing that the constraints before it do not: its form is constant and it
holds, or it follows from those whose forms have the same coefficients. -/
def Constraint.IsRedundant (before : List Constraint) (c : Constraint) : Prop :=
  ∃ f, c.form = .ok f ∧
    (f.isConstant = true ∧ (∀ σ : String → ℚ, c.HoldsAt σ) ∨
      ∀ σ : String → ℚ,
        (∀ d ∈ before, ∀ g, d.form = .ok g → g.coefficients = f.coefficients → d.HoldsAt σ) →
          c.HoldsAt σ)

/-- The verdict with a model in which those of the names that have no value are zero. -/
def Verdict.withZeros (names : Names) : Verdict → Verdict
  | .sat m => .sat (m.withZeros names)
  | .unsat => .unsat

/-- No comparison with zero holds for all numbers. -/
lemma Relation.exists_not_holds (relation : Relation) : ∃ q : ℚ, relation.holds q 0 = false := by
  cases relation with
  | eq => exact ⟨1, rfl⟩
  | le => exact ⟨1, rfl⟩
  | lt => exact ⟨0, rfl⟩
  | ge => exact ⟨-1, rfl⟩
  | gt => exact ⟨0, rfl⟩

namespace Solver

/-- A constraint whose form is not constant does not hold at all assignments. -/
lemma exists_not_holdsAt {a : Assertion} (h : a.constraint.form = .ok a.form)
    (hconst : a.form.isConstant = false) : ∃ σ : String → ℚ, ¬a.constraint.HoldsAt σ := by
  obtain ⟨q, hq⟩ := a.constraint.relation.exists_not_holds
  obtain ⟨σ, hσ⟩ := (Constraint.isReduced_form h).exists_eval_eq hconst (q - a.form.constant)
  refine ⟨σ, ?_⟩
  rw [Constraint.holdsAt_iff h, LinearForm.value_eq, hσ, sub_add_cancel, hq]
  exact Bool.false_ne_true

section Enter

variable {assertions : List Assertion} (hforms : ∀ a ∈ assertions, a.constraint.form = .ok a.form)
  {a : Assertion} (ha : a.constraint.form = .ok a.form)
  (hredundant : a.constraint.IsRedundant (assertions.map Assertion.constraint))
  {t : Tableau} (ht : (enter assertions ∅).result = .ok t)

include hforms ha hredundant ht

/-- A redundant constraint with a constant form holds, since the earlier ones with constant forms
do. -/
lemma holds_of_isConstant (hconst : a.form.isConstant = true) :
    a.constraint.relation.holds a.form.constant 0 = true := by
  obtain ⟨f, hf, h⟩ := hredundant
  obtain rfl := Except.ok.inj (ha.symm.trans hf)
  have hholds : a.constraint.HoldsAt 0 := by
    rcases h with ⟨-, h⟩ | h
    · exact h 0
    · refine h 0 (List.forall_mem_map.2 fun b hb g hg heq => ?_)
      obtain rfl := Except.ok.inj ((hforms b hb).symm.trans hg)
      have hconst' : b.form.isConstant = true := by
        rw [LinearForm.isConstant, heq]
        exact hconst
      rw [Constraint.holdsAt_iff hg, LinearForm.value_of_isConstant hconst']
      exact (enter_eq_ok ht).2 b hb hconst'
  rwa [Constraint.holdsAt_iff ha, LinearForm.value_of_isConstant hconst] at hholds

/-- A redundant constraint whose form is not constant leaves the tableau as it is.

**Proof sketch.** Not all assignments satisfy the constraint, so some earlier constraint is about
its combination of names. A value of the combination that the earlier constraints admit is one at an
assignment that satisfies them, and hence the constraint. -/
lemma assert_of_not_isConstant (hconst : a.form.isConstant = false) :
    (t.assert a.form a.constraint.relation).2 = t ∧
      t.isConflicting (t.assert a.form a.constraint.relation).1 = false := by
  obtain ⟨f, hf, h⟩ := hredundant
  obtain rfl := Except.ok.inj (ha.symm.trans hf)
  have himplied := h.resolve_left fun hall => by simp [hall.1] at hconst
  have hmem : ∀ b ∈ assertions, b.form.coefficients = a.form.coefficients →
      b.comparison ∈ comparisons assertions := by
    intro b hb heq
    refine mem_comparisons.2 ⟨b, hb, ?_, rfl⟩
    rw [LinearForm.isConstant, heq]
    exact hconst
  refine (keeps_of_enter hforms ht).assert_eq_self (c := a.comparison)
    (isConsistent_of_enter hforms ht) ?_ fun q hq => ?_
  · by_contra hnone
    push Not at hnone
    obtain ⟨σ, hσ⟩ := exists_not_holdsAt ha hconst
    refine hσ (himplied σ (List.forall_mem_map.2 fun b hb g hg heq => ?_))
    obtain rfl := Except.ok.inj ((hforms b hb).symm.trans hg)
    exact absurd heq (hnone _ (hmem b hb heq))
  · obtain ⟨σ, hσ⟩ := (Constraint.isReduced_form ha).exists_eval_eq hconst q
    have hadmits : ∀ b : Assertion, b.form.coefficients = a.form.coefficients →
        b.constraint.form = .ok b.form →
        (b.constraint.relation.Admits (-b.form.constant) (DeltaRat.ofRat q) ↔
          b.constraint.HoldsAt σ) := by
      intro b heq hb
      rw [← Assertion.admits_ofRat hb, Assertion.Admits, heq, ← LinComb.map_eval, hσ]
    refine (hadmits a rfl ha).2 (himplied σ (List.forall_mem_map.2 fun b hb g hg heq => ?_))
    obtain rfl := Except.ok.inj ((hforms b hb).symm.trans hg)
    exact (hadmits b heq hg).1 (hq _ (hmem b hb heq) heq)

/-- **Entering a redundant constraint changes nothing.** -/
lemma result_enter_redundant (rest : List Assertion) :
    (enter (a :: rest) t).result = (enter rest t).result := by
  rw [enter]
  split_ifs with hconst hholds
  · rfl
  · exact absurd (holds_of_isConstant hforms ha hredundant ht hconst) hholds
  · obtain ⟨hsame, hconflict⟩ := assert_of_not_isConstant hforms ha hredundant ht
      (Bool.eq_false_of_not_eq_true hconst)
    dsimp only
    rw [hsame, hconflict, if_neg Bool.false_ne_true]

end Enter

/-- A redundant assertion between others does not matter for the tableau. -/
lemma result_enter_insert {first rest : List Assertion} {a : Assertion}
    (hforms : ∀ b ∈ first, b.constraint.form = .ok b.form) (ha : a.constraint.form = .ok a.form)
    (h : a.constraint.IsRedundant (first.map Assertion.constraint)) :
    (enter (first ++ a :: rest) ∅).result = (enter (first ++ rest) ∅).result := by
  rw [result_enter_append, result_enter_append]
  cases ht : (enter first ∅).result with
  | error contradiction => rfl
  | ok t => exact result_enter_redundant hforms ha h ht rest

/-! ## Solvers -/

/-- Assertions are determined by their constraints, since each keeps the form of its constraint. -/
lemma eq_of_map_constraint_eq {first second : List Assertion}
    (hfirst : ∀ a ∈ first, a.constraint.form = .ok a.form)
    (hsecond : ∀ a ∈ second, a.constraint.form = .ok a.form)
    (h : first.map Assertion.constraint = second.map Assertion.constraint) : first = second := by
  have hread : ∀ assertions : List Assertion,
      (∀ a ∈ assertions, a.constraint.form = .ok a.form) →
        (assertions.map Assertion.constraint).filterMap
          (fun c => c.form.toOption.map (Assertion.mk c)) = assertions := by
    intro assertions hforms
    rw [List.filterMap_map]
    refine (List.filterMap_congr fun a ha => ?_).trans List.filterMap_some
    rw [Function.comp_apply, hforms a ha]
    rfl
  rw [← hread first hfirst, h, hread second hsecond]

section Insert

variable {s s' : Solver} {before rest : List Constraint} {c : Constraint}

/-- **With a redundant constraint among them, the constraints have the same tableau.** -/
lemma result_enter_asserted (hs : s.HasForms) (hs' : s'.HasForms)
    (h : s.constraints = before ++ rest) (h' : s'.constraints = before ++ c :: rest)
    (hc : c.IsRedundant before) :
    (enter s'.asserted ∅).result = (enter s.asserted ∅).result := by
  obtain ⟨first, last, heq, rfl, hlast⟩ := List.map_eq_append_iff.1 h
  obtain ⟨first', tail, heq', hfirst, htail⟩ := List.map_eq_append_iff.1 h'
  obtain ⟨a, last', rfl, rfl, hlast'⟩ := List.map_eq_cons_iff.1 htail
  rw [HasForms, heq, List.forall_mem_append] at hs
  rw [HasForms, heq', List.forall_mem_append, List.forall_mem_cons] at hs'
  obtain rfl := eq_of_map_constraint_eq hs'.1 hs.1 hfirst
  obtain rfl := eq_of_map_constraint_eq hs'.2.2 hs.2 (hlast'.trans hlast.symm)
  rw [heq, heq', result_enter_insert hs.1 hs'.2.1 hc]

/-- One more constraint adds its names to the model, with zero for those that are new. -/
lemma completeModel_insert (h : s.constraints = before ++ rest)
    (h' : s'.constraints = before ++ c :: rest) (t : Tableau) :
    s'.completeModel t = (s.completeModel t).withZeros c.vars := by
  refine Model.ext_get? fun name => ?_
  have hvars : name ∈ s'.vars ↔ name ∈ s.vars ∨ name ∈ c.vars := by
    rw [mem_vars_iff, mem_vars_iff, h, h']
    simp only [List.mem_append, List.mem_cons, or_and_right, exists_or, exists_eq_left]
    rw [← or_assoc, or_right_comm]
  rw [completeModel_get?, Model.withZeros_get?, completeModel_get?, Option.or_assoc]
  congr 1
  by_cases hs : name ∈ s.vars <;> by_cases hc : name ∈ c.vars <;> simp [hvars, hs, hc]

end Insert

/-- **A redundant constraint does not change an answer**, wherever it stands: it may be constant and
hold, or follow from the constraints before it whose forms have the same coefficients, as it does
when it is one of them. The search begins with the same tableau or meets the same contradiction, and
makes the same pivots; the verdict is the same, or the same budget is used up; and the model is the
same, up to the names that no other constraint has, which are zero.

**Proof sketch.** What comes of entering the assertions up to the redundant one is the same with and
without it: a constant form is not entered, and otherwise the slack of its combination exists and
has bounds that are no looser. -/
theorem solve_insert_redundant (budget : ℕ) (requests requests' : List Request)
    (before rest : List Constraint) (c : Constraint)
    (h : (after budget requests).constraints = before ++ rest)
    (h' : (after budget requests').constraints = before ++ c :: rest)
    (hc : c.IsRedundant before) :
    (after budget requests').search.outcome = (after budget requests).search.outcome ∧
      (after budget requests').search.pivots = (after budget requests).search.pivots ∧
      (after budget requests').solve =
        (after budget requests).solve.map (Verdict.withZeros c.vars) := by
  have hresult := result_enter_asserted (hasForms_after budget requests)
    (hasForms_after budget requests') h h' hc
  have houtcome : (after budget requests').search.outcome =
      (after budget requests).search.outcome := by
    rw [search, search, hresult, budget_after, budget_after]
  refine ⟨houtcome, by rw [Search.pivots, Search.pivots, houtcome], ?_⟩
  rw [solve, solve, conclude, conclude, houtcome, budget_after, budget_after]
  cases (after budget requests).search.outcome with
  | error contradiction => rfl
  | ok run =>
    cases hending : run.ending with
    | feasible =>
      dsimp only
      rw [hending, completeModel_insert h h']
      rfl
    | noRepair basic =>
      dsimp only
      rw [hending]
      rfl
    | exhausted =>
      dsimp only
      rw [hending]
      rfl

/-- With `x + y ≥ 2` before it, `x + y + (z - z) > 1` only adds that `z` is zero. -/
theorem solve_insert_redundant_sum :
    (Constraint.mk (.node .add (.node .add (.var "x") (.var "y"))
      (.node .sub (.var "z") (.var "z"))) .gt (.lit 1)).IsRedundant
        [⟨.node .add (.var "x") (.var "y"), .ge, .lit 2⟩] ∧
    (after 5 [.add ⟨.node .add (.var "x") (.var "y"), .ge, .lit 2⟩,
      .add ⟨.node .add (.node .add (.var "x") (.var "y")) (.node .sub (.var "z") (.var "z")),
        .gt, .lit 1⟩, .add ⟨.var "x", .lt, .lit 0⟩]).solve =
      .ok (.sat (Model.ofList [("x", -1), ("y", 3), ("z", 0)])) := by
  have hredundant : (Constraint.mk (.node .add (.node .add (.var "x") (.var "y"))
      (.node .sub (.var "z") (.var "z"))) .gt (.lit 1)).IsRedundant
        [⟨.node .add (.var "x") (.var "y"), .ge, .lit 2⟩] := by
    refine ⟨_, rfl, Or.inr fun σ hσ => ?_⟩
    obtain ⟨_, _, hsum, htwo, hle⟩ := hσ _ (List.mem_singleton.2 rfl) _ rfl (by decide +kernel)
    obtain rfl := Except.ok.inj hsum
    obtain rfl := Except.ok.inj htwo
    have hle' : 2 ≤ σ "x" + σ "y" := of_decide_eq_true hle
    refine ⟨_, _, rfl, rfl, decide_eq_true ?_⟩
    linarith
  refine ⟨hredundant, ?_⟩
  obtain ⟨-, -, hsolve⟩ := solve_insert_redundant 5
    [.add ⟨.node .add (.var "x") (.var "y"), .ge, .lit 2⟩, .add ⟨.var "x", .lt, .lit 0⟩]
    [.add ⟨.node .add (.var "x") (.var "y"), .ge, .lit 2⟩,
      .add ⟨.node .add (.node .add (.var "x") (.var "y")) (.node .sub (.var "z") (.var "z")),
        .gt, .lit 1⟩, .add ⟨.var "x", .lt, .lit 0⟩]
    [⟨.node .add (.var "x") (.var "y"), .ge, .lit 2⟩] [⟨.var "x", .lt, .lit 0⟩] _
    (by decide +kernel) (by decide +kernel) hredundant
  rw [hsolve]
  decide +kernel

end Solver

end ExactArith
