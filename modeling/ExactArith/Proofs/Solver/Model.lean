import ExactArith.Proofs.Expr.Evaluation
import ExactArith.Solver.Basic

set_option autoImplicit false
set_option relaxedAutoImplicit false

/-!
# Models as bindings and as assignments

A model is read in two ways: as an assignment of all names, which is what constraints are about, and
as a binding of its names to constants, under which expressions are evaluated. Both give an
expression the same value if the model has a value for each of its symbols.

## Main definitions

* `ExactArith.Model.withZeros` — a model that is completed by zero for some names.

## Main results

* `ExactArith.Model.evaluate_toBinding` — an expression evaluates under the model to the value that
  its term has at the assignment.
* `ExactArith.Solver.completeModel_get?` — the model of a solver: the values of the tableau, and
  zero for the variables that it leaves out.
-/

namespace ExactArith

namespace Model

/-- A model is determined by the values of the names. -/
lemma ext_get? {m n : Model} (h : ∀ name, m.get? name = n.get? name) : m = n := by
  obtain ⟨values⟩ := m
  obtain ⟨values'⟩ := n
  exact congrArg Model.mk (Std.ExtTreeMap.ext_getElem? h)

lemma assignment_eq_of_get? {m : Model} {name : String} {value : ℚ} (h : m.get? name = some value) :
    m.assignment name = value := by
  rw [assignment, Std.ExtTreeMap.getD_eq_getD_getElem?]
  rw [get?] at h
  rw [h, Option.getD_some]

lemma toBinding_get? (m : Model) (name : String) :
    m.toBinding.get? name = (m.get? name).map Expr.constant :=
  Std.ExtTreeMap.getElem?_map

/-- A name of the model has its value by substitution. -/
lemma hasValue_symbol {m : Model} {name : String} (h : (m.get? name).isSome = true) :
    m.toBinding.HasValue (.symbol name) (m.assignment name) := by
  obtain ⟨q, hq⟩ := Option.isSome_iff_exists.1 h
  rw [assignment_eq_of_get? hq]
  exact .symbol (by rw [toBinding_get?, hq, Option.map_some]) (.constant q)

/-- **An expression evaluates under the model to the value that its term has at the assignment.** -/
lemma evaluate_toBinding {m : Model} {e : Expr} {value : ℚ}
    (h : ∀ name ∈ e.symbols, (m.get? name).isSome = true)
    (hvalue : e.toTerm.value m.assignment = .ok value) : e.evaluate m.toBinding = .ok value :=
  Expr.evaluate_eq_ok_iff.2 (.of_toTerm (fun name hname => hasValue_symbol (h name hname)) hvalue)

lemma insertIfNew_get? (m : Model) (name other : String) (value : ℚ) :
    (m.insertIfNew name value).get? other =
      (m.get? other).or (if name = other then some value else none) := by
  rw [insertIfNew, get?, get?, Std.ExtTreeMap.getElem?_insertIfNew]
  by_cases hname : name = other
  · subst hname
    cases h : m.values[name]? with
    | none => simp [Std.ExtTreeMap.mem_iff_isSome_getElem?, h]
    | some old => simp [Std.ExtTreeMap.mem_iff_isSome_getElem?, h]
  · simp [hname]

/-- Giving the same value to new names, one after the other. -/
lemma foldl_insertIfNew_get? (names : List String) (value : ℚ) (other : String) :
    ∀ m : Model, (names.foldl (fun m name => m.insertIfNew name value) m).get? other =
      (m.get? other).or (if other ∈ names then some value else none) := by
  induction names with
  | nil =>
    intro m
    simp
  | cons name names ih =>
    intro m
    rw [List.foldl_cons, ih, insertIfNew_get?]
    by_cases hname : name = other
    · cases m.get? other <;> simp [hname]
    · simp [hname, Ne.symm hname]

/-- The model with zero for those of the names that have no value. -/
def withZeros (names : Names) (m : Model) : Model :=
  names.foldl (fun m name => m.insertIfNew name 0) m

lemma withZeros_get? (names : Names) (m : Model) (name : String) :
    (m.withZeros names).get? name = (m.get? name).or (if name ∈ names then some 0 else none) := by
  rw [withZeros, Std.ExtTreeSet.foldl_eq_foldl_toList, foldl_insertIfNew_get?]
  simp only [Std.ExtTreeSet.mem_toList]

end Model

namespace Solver

lemma mem_foldl_vars {name : String} (constraints : List Constraint) (names : Names) :
    name ∈ constraints.foldl (fun names c => names ∪ c.vars) names ↔
      name ∈ names ∨ ∃ c ∈ constraints, name ∈ c.vars := by
  induction constraints generalizing names with
  | nil => simp
  | cons c constraints ih =>
    rw [List.foldl_cons, ih, Std.ExtTreeSet.mem_union_iff]
    simp [or_assoc]

/-- The variables of a solver are those of its constraints. -/
lemma mem_vars_iff {s : Solver} {name : String} :
    name ∈ s.vars ↔ ∃ c ∈ s.constraints, name ∈ c.vars := by
  rw [vars, mem_foldl_vars]
  simp

/-- **The model of a solver**: the values of the tableau, and zero for the variables of the solver
that the tableau leaves out. -/
lemma completeModel_get? (s : Solver) (t : Tableau) (name : String) :
    (s.completeModel t).get? name =
      (t.model.get? name).or (if name ∈ s.vars then some 0 else none) :=
  t.model.withZeros_get? s.vars name

end Solver

end ExactArith
