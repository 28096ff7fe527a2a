import ExactArith.CommandLine.Run
import ExactArith.Proofs.Linear.Linearity
import ExactArith.Proofs.Solver.Budget
import ExactArith.Proofs.Solver.Support
import ExactArith.Proofs.Tableau.OneRow
import ExactArith.Proofs.Translation.Linear
import ExactArith.Solver.Basic

set_option autoImplicit false
set_option relaxedAutoImplicit false

/-!
# Models of a single comparison

A comparison of two expressions is asserted as the constraint between the copies of its sides, which
fails only if one of them is not linear. Its difference is either a number, which decides the
question at once, or mentions a name, and then the search makes one pivot at most and changes the
first name.

## Main definitions

* `ExactArith.Model.onNames` — the model of some names that an assignment gives.
* `ExactArith.Solver.single` — a solver with one assertion.

## Main results

* `ExactArith.Solver.assertExprs_eq` — what it means to assert a comparison of expressions.
* `ExactArith.Solver.solve_single_of_isConstant`, `ExactArith.Solver.solve_single_of_toList` — the
  answers for a single assertion.
* `ExactArith.findModel_eq_solution` — the answer for every comparison of two expressions.
-/

namespace ExactArith

namespace Model

/-- The model that gives each of the names its value at an assignment. -/
def onNames (names : Names) (σ : String → ℚ) : Model :=
  names.foldl (fun m name => m.insert name (σ name)) ∅

lemma insert_get? (m : Model) (name other : String) (value : ℚ) :
    (m.insert name value).get? other = if name = other then some value else m.get? other := by
  rw [get?, insert, Std.ExtTreeMap.getElem?_insert]
  simp only [Std.compare_eq_iff_eq]
  rfl

lemma foldl_insert_get? (names : List String) (σ : String → ℚ) (m : Model) (other : String) :
    (names.foldl (fun m name => m.insert name (σ name)) m).get? other =
      if other ∈ names then some (σ other) else m.get? other := by
  induction names generalizing m with
  | nil => simp
  | cons name names ih =>
    rw [List.foldl_cons, ih, insert_get?]
    by_cases hname : name = other
    · simp [hname]
    · simp [hname, Ne.symm hname]

lemma onNames_get? (names : Names) (σ : String → ℚ) (name : String) :
    (onNames names σ).get? name = if name ∈ names then some (σ name) else none := by
  rw [onNames, Std.ExtTreeSet.foldl_eq_foldl_toList, foldl_insert_get?]
  simp only [Std.ExtTreeSet.mem_toList]
  rfl

end Model

/-! ## Asserting comparisons of expressions -/

/-- Expressions are compared by the constraint between their copies, if that has a form. -/
lemma Constraint.ofExprs_eq (left : Expr) (relation : Relation) (right : Expr) :
    Constraint.ofExprs left relation right =
      (Constraint.mk left.toTerm relation right.toTerm).form.map
        fun _ => ⟨left.toTerm, relation, right.toTerm⟩ := by
  have hbuild := Context.constraint_after linearBackend [] left relation right
  change ((∅ : Context LinearTerm).constraint linearBackend left relation right).1 = _ at hbuild
  rw [ofExprs, hbuild]
  rcases left.buildConstraint_linear relation right with ⟨f, hf, h⟩ | ⟨refusal, hf, h⟩
  · rw [hf, h]
    rfl
  · rw [hf, h]
    rfl

namespace Solver

/-- **To assert a comparison of expressions is to assert the constraint between their copies.** -/
lemma assertExprs_eq (s : Solver) (left : Expr) (relation : Relation) (right : Expr) :
    s.assertExprs left relation right = s.add ⟨left.toTerm, relation, right.toTerm⟩ := by
  rw [assertExprs, Constraint.ofExprs_eq, add]
  cases hform : (Constraint.mk left.toTerm relation right.toTerm).form with
  | error error => rfl
  | ok f =>
    change s.add _ = _
    rw [add, hform]

/-! ## Single assertions -/

section Single

variable {c : Constraint} {f : LinearForm} (budget : ℕ) (hf : c.form = .ok f)

/-- A solver with one assertion. -/
def single (budget : ℕ) (c : Constraint) (f : LinearForm) : Solver := ⟨budget, [⟨c, f⟩], []⟩

include hf in
lemma hasForms_single : (single budget c f).HasForms :=
  List.forall_mem_singleton.2 hf

lemma mem_vars_single {name : String} : name ∈ (single budget c f).vars ↔ name ∈ c.vars := by
  rw [mem_vars_iff, constraints, single]
  simp

/-- A search in the empty tableau has nothing to do. -/
lemma run_empty : (∅ : Tableau).run budget = ⟨[], .feasible, ∅⟩ := by
  have hstep : (∅ : Tableau).step = .feasible := rfl
  rw [Tableau.run.eq_def, hstep]

/-- **A constant form decides the question at once**: all names are zero if it compares with zero as
it should. -/
lemma solve_single_of_isConstant (hconst : f.isConstant = true) :
    (single budget c f).search.pivots.length ≤ 1 ∧
      (single budget c f).solve = .ok
        (if c.relation.holds f.constant 0 then .sat (.onNames c.vars 0) else .unsat) := by
  by_cases hholds : c.relation.holds f.constant 0 = true
  · have hresult : (enter (single budget c f).asserted ∅).result = .ok ∅ := by
      rw [single, enter, if_pos hconst, if_pos hholds]
      rfl
    have hmodel : (single budget c f).completeModel ∅ = .onNames c.vars 0 := by
      refine Model.ext_get? fun name => ?_
      have hnone : (∅ : Tableau).model.get? name = none := rfl
      rw [completeModel_get?, hnone, Option.none_or, Model.onNames_get?]
      simp only [mem_vars_single]
      rfl
    rw [solve_of_ok hresult, Search.pivots, search, hresult]
    simp only [Except.map, run_empty, hmodel, hholds]
    exact ⟨Nat.zero_le 1, rfl⟩
  · have hresult : (enter (single budget c f).asserted ∅).result = .error (.falseConstant c) := by
      rw [single, enter, if_pos hconst, if_neg hholds]
    rw [solve_of_error hresult, Search.pivots, search, hresult, if_neg hholds]
    exact ⟨Nat.zero_le 1, rfl⟩

include hf in
/-- **A form that mentions a name has a solution** in which only the first name may be different
from zero, and it is found with one pivot at most. -/
lemma solve_single_of_toList {x : String} {a : ℚ} {rest : List (String × ℚ)}
    (hlist : f.coefficients.toList = (x, a) :: rest) :
    (single (budget + 1) c f).search.pivots.length ≤ 1 ∧
      (single (budget + 1) c f).solve = .ok
        (.sat (.onNames c.vars (Comparison.solution ⟨f, c.relation⟩ x))) := by
  have hrow : ((∅ : Tableau).assert f c.relation).2.OneRow ⟨f, c.relation⟩ x :=
    Tableau.oneRow_assert (c := ⟨f, c.relation⟩) (Constraint.isReduced_form hf) hlist
  have hconst : f.isConstant = false := by
    rw [Bool.eq_false_iff]
    intro hconst
    refine hrow.coeff_ne_zero ?_
    change f.coefficients.coeff x = 0
    rw [LinearForm.coefficients_of_isConstant hconst]
    exact LinComb.coeff_zero x
  have hresult : (enter (single (budget + 1) c f).asserted ∅).result =
      .ok ((∅ : Tableau).assert f c.relation).2 := by
    rw [single, enter, hconst, if_neg Bool.false_ne_true]
    dsimp only
    rw [hrow.isConsistent.isConflicting_eq_false, if_neg Bool.false_ne_true]
    rfl
  generalize ((∅ : Tableau).assert f c.relation).2 = t at hrow hresult
  obtain ⟨hpivots, hending, hvalues⟩ := hrow.run_eq budget
  have hmodel : (single (budget + 1) c f).completeModel (t.run (budget + 1)).final =
      .onNames c.vars (Comparison.solution ⟨f, c.relation⟩ x) := by
    refine Model.ext_get? fun name => ?_
    rw [completeModel_get?, hvalues, Model.onNames_get?]
    simp only [mem_vars_single]
    cases hk : t.numbers[name]? with
    | some k =>
      have hname := (mem_vars_single _).1 (mem_vars_of_number (hasForms_single _ hf) hresult hk).1
      rw [if_pos hname, if_pos hname]
      rfl
    | none =>
      have hname : name ≠ x := by
        rintro rfl
        simp [hrow.first] at hk
      rw [Comparison.solution_of_ne hname]
      rfl
  have hbudget : (single (budget + 1) c f).budget = budget + 1 := rfl
  rw [solve_of_ok hresult, Search.pivots, search, hresult, hbudget, hending]
  dsimp only
  rw [hmodel]
  exact ⟨hpivots, rfl⟩

end Single

end Solver

/-! ## Single comparisons -/

/-- The first entry of a combination of names is that of the least name. -/
lemma LinComb.IsReduced.exists_least {d : LinComb String} (h : d.IsReduced)
    (hne : d.isEmpty = false) : ∃ x a rest, d.toList = (x, a) :: rest ∧ d.coeff x ≠ 0 ∧
      ∀ y, d.coeff y ≠ 0 → x ≤ y := by
  have hmem : ∀ y, d.coeff y ≠ 0 → (y, d.coeff y) ∈ d.toList := fun y hy =>
    mem_toList_iff.2 (getElem?_of_coeff_ne_zero hy)
  have hord : d.toList.Pairwise fun e f => compare e.1 f.1 = .lt :=
    Std.ExtTreeMap.ordered_keys_toList
  cases hlist : d.toList with
  | nil =>
    obtain ⟨y, hy⟩ := h.exists_coeff_ne_zero hne
    exact absurd (hmem y hy) (by rw [hlist]; exact List.not_mem_nil)
  | cons e rest =>
    obtain ⟨x, a⟩ := e
    have hstored := h.getElem?_eq_some_iff.1 (mem_toList_iff.1 (hlist ▸ List.mem_cons_self))
    refine ⟨x, a, rest, rfl, hstored.1 ▸ hstored.2, fun y hy => ?_⟩
    have hy' := hmem y hy
    rw [hlist] at hord hy'
    rcases List.mem_cons.1 hy' with heq | hrest
    · exact (Prod.mk.inj heq).1.ge
    · exact (compare_lt_iff_lt.1 ((List.pairwise_cons.1 hord).1 _ hrest)).le

section FindModel

variable {left right : Expr} {relation : Relation}

/-- The question about a comparison of expressions is one about a single assertion. -/
lemma findModel_of_form {f : LinearForm}
    (hf : (Constraint.mk left.toTerm relation right.toTerm).form = .ok f) :
    findModel left relation right =
        (Solver.single 10000 ⟨left.toTerm, relation, right.toTerm⟩ f).solve ∧
      ∀ s, Solver.default.assertExprs left relation right = .ok s →
        s = Solver.single 10000 ⟨left.toTerm, relation, right.toTerm⟩ f := by
  have hassert : Solver.default.assertExprs left relation right =
      .ok (Solver.single 10000 ⟨left.toTerm, relation, right.toTerm⟩ f) := by
    rw [Solver.assertExprs_eq, Solver.add, hf]
    rfl
  refine ⟨by rw [findModel, hassert]; rfl, fun s hs => ?_⟩
  exact (Except.ok.inj (hassert.symm.trans hs)).symm

/-- It fails if the comparison has no form. -/
lemma findModel_of_error {error : SolverError}
    (hf : (Constraint.mk left.toTerm relation right.toTerm).form = .error error) :
    findModel left relation right = .error error ∧
      Solver.default.assertExprs left relation right = .error error := by
  have hassert : Solver.default.assertExprs left relation right = .error error := by
    rw [Solver.assertExprs_eq, Solver.add, hf]
    rfl
  exact ⟨by rw [findModel, hassert]; rfl, hassert⟩

/-- Either both sides are linear, or the comparison is refused for what is not linear about the
first operation that is not. -/
lemma findModel_cases (left : Expr) (relation : Relation) (right : Expr) :
    (∃ p q, LinearForm.ofTerm left.toTerm = .ok p ∧ LinearForm.ofTerm right.toTerm = .ok q ∧
        ∀ m ∈ left.toTerm.nodes ++ right.toTerm.nodes, m.IsLinearAt) ∨
      ∃ what, findModel left relation right = .error (.unsupported what) ∧
        Solver.default.assertExprs left relation right = .error (.unsupported what) ∧
        ∃ m ∈ left.toTerm.nodes ++ right.toTerm.nodes, ¬m.IsLinearAt := by
  have hnot : ∀ {t : Term} {what}, t.FirstOffence what → ∃ m ∈ t.nodes, ¬m.IsLinearAt := by
    intro t what hfirst
    by_contra hall
    push Not at hall
    exact Term.not_firstOffence_of_forall hall what hfirst
  have hrefused : ∀ {what}, (Constraint.mk left.toTerm relation right.toTerm).form =
      .error (.unsupported what) → findModel left relation right = .error (.unsupported what) ∧
        Solver.default.assertExprs left relation right = .error (.unsupported what) :=
    fun hf => findModel_of_error hf
  rcases LinearForm.ofTerm_cases left.toTerm with ⟨p, hp, hleft⟩ | ⟨what, hp, hfirst⟩
  · rcases LinearForm.ofTerm_cases right.toTerm with ⟨q, hq, hright⟩ | ⟨what, hq, hfirst⟩
    · exact Or.inl ⟨p, q, hp, hq, List.forall_mem_append.2 ⟨hleft, hright⟩⟩
    · obtain ⟨hfind, hassert⟩ := hrefused (by rw [Constraint.form, hp, hq])
      obtain ⟨m, hm, hne⟩ := hnot hfirst
      exact Or.inr ⟨what, hfind, hassert, m, List.mem_append_right _ hm, hne⟩
  · obtain ⟨hfind, hassert⟩ := hrefused (by rw [Constraint.form, hp])
    obtain ⟨m, hm, hne⟩ := hnot hfirst
    exact Or.inr ⟨what, hfind, hassert, m, List.mem_append_left _ hm, hne⟩

/-- The answers for linear sides, which are found with one pivot at most. -/
lemma findModel_of_linear {p q : LinearForm} (hp : LinearForm.ofTerm left.toTerm = .ok p)
    (hq : LinearForm.ofTerm right.toTerm = .ok q) :
    ((p.minus q).isConstant = true → findModel left relation right =
      .ok (if relation.holds (p.minus q).constant 0 then
        .sat (.onNames (left.symbols ∪ right.symbols) 0) else .unsat)) ∧
    ((p.minus q).isConstant = false → ∃ x, (p.minus q).coefficients.coeff x ≠ 0 ∧
      (∀ y, (p.minus q).coefficients.coeff y ≠ 0 → x ≤ y) ∧
      findModel left relation right = .ok (.sat (.onNames (left.symbols ∪ right.symbols)
        (Comparison.solution ⟨p.minus q, relation⟩ x)))) ∧
    ∀ s, Solver.default.assertExprs left relation right = .ok s → s.search.pivots.length ≤ 1 := by
  have hf : (Constraint.mk left.toTerm relation right.toTerm).form = .ok (p.minus q) := by
    rw [Constraint.form, hp, hq]
  have hvars : (Constraint.mk left.toTerm relation right.toTerm).vars =
      left.symbols ∪ right.symbols := by
    rw [Constraint.vars, Expr.vars_toTerm, Expr.vars_toTerm]
  obtain ⟨hfind, hsolver⟩ := findModel_of_form hf
  rw [hfind, ← hvars]
  cases hconst : (p.minus q).isConstant with
  | true =>
    obtain ⟨hpivots, hsolve⟩ := Solver.solve_single_of_isConstant
      (c := ⟨left.toTerm, relation, right.toTerm⟩) 10000 hconst
    refine ⟨fun _ => hsolve, fun h => absurd h (by simp), fun s hs => ?_⟩
    rw [hsolver s hs]
    exact hpivots
  | false =>
    obtain ⟨x, a, rest, hlist, hx, hleast⟩ :=
      (Constraint.isReduced_form hf).exists_least hconst
    obtain ⟨hpivots, hsolve⟩ := Solver.solve_single_of_toList 9999 hf hlist
    refine ⟨fun h => absurd h (by simp), fun _ => ⟨x, hx, hleast, hsolve⟩, fun s hs => ?_⟩
    rw [hsolver s hs]
    exact hpivots

end FindModel

/-! ## The query of the command line -/

section Query

variable (target : ℚ) {p : LinearForm} (hp : LinearForm.ofTerm CommandLine.query.toTerm = .ok p)

include hp

/-- The query compares `x - 2y` with the target. -/
lemma value_query (σ : String → ℚ) :
    (p.minus (.ofConstant target)).value σ = σ "x" - σ "y" * 2 - target := by
  have hterm : CommandLine.query.toTerm.value σ = .ok (σ "x" - σ "y" * 2) := rfl
  rw [LinearForm.value_ofTerm hp, Except.ok.injEq] at hterm
  rw [LinearForm.value_minus, LinearForm.value_ofConstant, hterm]

lemma constant_query : (p.minus (.ofConstant target)).constant = -target := by
  rw [LinearForm.constant_eq, value_query target hp]
  simp

lemma coeff_query (name : String) : (p.minus (.ofConstant target)).coefficients.coeff name =
    if name = "x" then 1 else if name = "y" then -2 else 0 := by
  rw [LinearForm.coeff_eq, value_query target hp, value_query target hp]
  by_cases hx : name = "x"
  · subst hx
    simp [LinearForm.unitAt]
  · by_cases hy : name = "y"
    · subst hy
      simp [LinearForm.unitAt]
    · simp [LinearForm.unitAt, hx, hy, Ne.symm hx, Ne.symm hy]

end Query

/-- **The answer to the query of the command line gives `x` the target and `y` zero.** -/
lemma findModel_query (target : ℚ) : findModel CommandLine.query .eq (.constant target) =
    .ok (.sat (Model.ofList [("x", target), ("y", 0)])) := by
  obtain ⟨p, hp⟩ : ∃ p, LinearForm.ofTerm CommandLine.query.toTerm = .ok p := ⟨_, rfl⟩
  have hcoeff := coeff_query target hp
  have hconst : (p.minus (.ofConstant target)).isConstant = false := by
    rw [Bool.eq_false_iff]
    intro hconst
    have hzero := hcoeff "x"
    rw [LinearForm.coefficients_of_isConstant hconst, if_pos rfl] at hzero
    exact zero_ne_one hzero
  obtain ⟨-, hfind, -⟩ :=
    @findModel_of_linear CommandLine.query (.constant target) .eq p (.ofConstant target) hp rfl
  obtain ⟨x, hx, hleast, hmodel⟩ := hfind hconst
  obtain rfl : x = "x" := by
    have hxy : x = "x" ∨ x = "y" := by
      by_contra hne
      push Not at hne
      exact hx (by rw [hcoeff, if_neg hne.1, if_neg hne.2])
    refine hxy.resolve_right ?_
    rintro rfl
    exact absurd (hleast "x" (by simp [hcoeff])) (by decide)
  have hsymbols : ∀ name, name ∈ CommandLine.query.symbols ∪ (Expr.constant target).symbols ↔
      name = "x" ∨ name = "y" := by
    intro name
    have hquery : CommandLine.query =
      .node (.symbol "x") .sub (.node (.symbol "y") .mul (.constant 2)) := rfl
    rw [Std.ExtTreeSet.mem_union_iff, hquery]
    simp [eq_comm]
  have hsolution : ∀ name, Comparison.solution ⟨p.minus (.ofConstant target), .eq⟩ "x" name =
      if name = "x" then target else 0 := by
    intro name
    rw [Comparison.solution, Comparison.target]
    simp only [constant_query target hp, hcoeff, Relation.holds, neg_neg, if_pos, div_one]
    split_ifs with hzero <;> simp_all
  rw [hmodel]
  refine congrArg (fun m => Except.ok (Verdict.sat m)) (Model.ext_get? fun name => ?_)
  have hlist : Model.ofList [("x", target), ("y", 0)] =
      ((∅ : Model).insert "x" target).insert "y" 0 := rfl
  rw [Model.onNames_get?, hsolution, hlist, Model.insert_get?, Model.insert_get?]
  simp only [hsymbols]
  by_cases hname : name = "x"
  · subst hname
    simp
  · by_cases hname' : name = "y"
    · subst hname'
      simp
    · rw [if_neg (not_or.2 ⟨hname, hname'⟩), if_neg (Ne.symm hname'), if_neg (Ne.symm hname)]
      rfl

/-! ## All comparisons -/

/-- **A comparison of two expressions is decided with one pivot at most, and its model is known.**
It fails exactly if an operation in one of the sides is not linear, which is then what is not
supported; it never fails for another reason. Otherwise the sides have forms, and their difference
`f` decides. If `f` is constant, there is a model just when its constant part compares with zero as
asked, and all symbols are zero. If not, there is always a model. If zero for all symbols satisfies
the comparison, this is the model; else all symbols are zero but the least one that `f` mentions,
and that one brings `f` to zero, or to one on the side that a strict comparison asks for. The query
of the command line is answered by the target and zero.

**Proof sketch.** The tableau of the comparison has one row, and names have no bounds. So the first
name of the form, which has the smallest variable, enters at once if the slack is out of bounds, and
after that the only basic variable is a name. -/
theorem findModel_eq_solution (left : Expr) (relation : Relation) (right : Expr) :
    (∀ error, findModel left relation right = .error error → ∃ what, error = .unsupported what) ∧
    ((∃ m ∈ left.toTerm.nodes ++ right.toTerm.nodes, ¬m.IsLinearAt) →
      ∃ what, findModel left relation right = .error (.unsupported what)) ∧
    ((∀ m ∈ left.toTerm.nodes ++ right.toTerm.nodes, m.IsLinearAt) →
      ∃ p q f, LinearForm.ofTerm left.toTerm = .ok p ∧ LinearForm.ofTerm right.toTerm = .ok q ∧
        f = p.minus q ∧
        (f.isConstant = true → findModel left relation right =
          .ok (if relation.holds f.constant 0 then
            .sat (.onNames (left.symbols ∪ right.symbols) 0) else .unsat)) ∧
        (f.isConstant = false → ∃ x, f.coefficients.coeff x ≠ 0 ∧
          (∀ y, f.coefficients.coeff y ≠ 0 → x ≤ y) ∧
          findModel left relation right = .ok (.sat (.onNames (left.symbols ∪ right.symbols)
            (Comparison.solution ⟨f, relation⟩ x))))) ∧
    (∀ s, Solver.default.assertExprs left relation right = .ok s → s.search.pivots.length ≤ 1) ∧
    ∀ target, findModel CommandLine.query .eq (.constant target) =
      .ok (.sat (Model.ofList [("x", target), ("y", 0)])) := by
  rcases findModel_cases left relation right with ⟨p, q, hp, hq, hlinear⟩ |
    ⟨what, hfind, hassert, m, hm, hnot⟩
  · obtain ⟨hconst, hname, hpivots⟩ := @findModel_of_linear left right relation p q hp hq
    refine ⟨fun error herror => ?_, fun ⟨m, hm, hnot⟩ => absurd (hlinear m hm) hnot,
      fun _ => ⟨p, q, _, hp, hq, rfl, hconst, hname⟩, hpivots, findModel_query⟩
    -- linear sides always give an answer
    cases hf : (p.minus q).isConstant with
    | true => simp [hconst hf] at herror
    | false =>
      obtain ⟨x, -, -, hmodel⟩ := hname hf
      simp [hmodel] at herror
  · refine ⟨fun error herror => ⟨what, ?_⟩, fun _ => ⟨what, hfind⟩,
      fun hlinear => absurd (hlinear m hm) hnot, fun s hs => ?_, findModel_query⟩
    · exact (Except.error.inj (hfind.symm.trans herror)).symm
    · simp [hassert] at hs

/-- Zero does not bring `1 - 2x` below `y`, so the first name moves until the difference is `-1`. -/
example : findModel (1 - .symbol "x" * 2) .lt (.symbol "y") =
    .ok (.sat (Model.ofList [("x", 1), ("y", 0)])) := by
  decide +kernel

end ExactArith
