import ExactArith.Proofs.Linear.Canonical
import ExactArith.Proofs.Solver.Entering
import ExactArith.Proofs.Solver.Scopes
import ExactArith.Proofs.Tableau.Basis

set_option autoImplicit false
set_option relaxedAutoImplicit false

/-!
# Which names a model assigns

A model comes from two sources: the tableau, which knows the names that occur in forms, and the
names that occur in the constraints as they were asserted. A form mentions no other names than its
constraint, so the model assigns the names of the constraints in force. The names that cancel in all
forms are zero, and of the others only as many can be different from zero as there are combinations
that are compared.

## Main definitions

* `ExactArith.Solver.Frames.forms`, `ExactArith.Solver.Frames.combinations` — the forms of the
  constraints of a stack, and the combinations of names in those that are not constant.

## Main results

* `ExactArith.LinearForm.carries_of_coeff_ne_zero` — forms mention names of their terms.
* `ExactArith.Solver.model_names_of_solve_eq_sat` — a model assigns exactly the names of the
  constraints in force, and few of them a value other than zero.
-/

namespace ExactArith

/-! ## Names of forms -/

/-- The value of a term depends on the names that it carries. -/
lemma Term.value_congr {t : Term} {σ τ : String → ℚ}
    (h : ∀ name, BinaryTree.Carries name t → σ name = τ name) : t.value σ = t.value τ := by
  induction t with
  | var name => rw [value, value, h name (.here rfl)]
  | lit c => rfl
  | node op left right ihl ihr =>
    rw [value, value, ihl fun name hname => h name (.left rfl hname),
      ihr fun name hname => h name (.right rfl hname)]

/-- **The form of a term mentions names of the term only**: any other variable makes no difference
to the value. -/
lemma LinearForm.carries_of_coeff_ne_zero {t : Term} {f : LinearForm} (h : ofTerm t = .ok f)
    {name : String} (hname : f.coefficients.coeff name ≠ 0) : BinaryTree.Carries name t := by
  by_contra hcarries
  refine hname ?_
  have hvalue : t.value (unitAt name) = t.value 0 := by
    refine Term.value_congr fun other hother => Pi.single_eq_of_ne ?_ 1
    rintro rfl
    exact hcarries hother
  rw [value_ofTerm h, value_ofTerm h, Except.ok.injEq] at hvalue
  rw [coeff_eq, hvalue, sub_self]

/-- The form of a constraint mentions names of its sides only. -/
lemma Constraint.mem_vars_of_coeff_ne_zero {c : Constraint} {f : LinearForm} (h : c.form = .ok f)
    {name : String} (hname : f.coefficients.coeff name ≠ 0) : name ∈ c.vars := by
  obtain ⟨p, q, hp, hq, rfl⟩ := form_eq_ok h
  rw [vars, Std.ExtTreeSet.mem_union_iff, Term.vars, Term.vars, BinaryTree.mem_names_iff,
    BinaryTree.mem_names_iff]
  by_cases hleft : p.coefficients.coeff name = 0
  · refine Or.inr (LinearForm.carries_of_coeff_ne_zero hq fun hright => hname ?_)
    rw [LinearForm.coeff_eq] at hleft hright ⊢
    rw [LinearForm.value_minus, LinearForm.value_minus, sub_sub_sub_comm, hleft, hright, sub_self]
  · exact Or.inl (LinearForm.carries_of_coeff_ne_zero hp hleft)

/-! ## Names of models -/

namespace Model

lemma get?_eq_some_iff {m : Model} {name : String} {q : ℚ} :
    m.get? name = some q ↔ (name, q) ∈ m.toList :=
  Std.ExtTreeMap.mem_toList_iff_getElem?_eq_some.symm

/-- A model has each name once. -/
lemma nodup_map_fst_toList (m : Model) : (m.toList.map Prod.fst).Nodup := by
  rw [toList, Std.ExtTreeMap.map_fst_toList_eq_keys]
  exact Std.ExtTreeMap.nodup_keys

/-- The names of a model stand in their order, so they are determined by which they are. -/
lemma map_fst_toList {m : Model} {names : Names}
    (h : ∀ name, (m.get? name).isSome = true ↔ name ∈ names) :
    m.toList.map Prod.fst = names.toList := by
  rw [toList, Std.ExtTreeMap.map_fst_toList_eq_keys]
  have hirrefl : Std.Irrefl fun a b : String => compare a b = .lt := ⟨fun a => by simp⟩
  have hantisymm : Std.Antisymm fun a b : String => compare a b = .lt :=
    ⟨fun a b hab hba => absurd (Std.OrientedCmp.gt_of_lt hab) (by simp [hba])⟩
  refine List.Pairwise.eq_of_mem_iff Std.ExtTreeMap.ordered_keys Std.ExtTreeSet.ordered_toList ?_
  intro name
  rw [Std.ExtTreeMap.mem_keys, Std.ExtTreeSet.mem_toList, ← h,
    Std.ExtTreeMap.mem_iff_isSome_getElem?]
  rfl

end Model

namespace Solver

/-! ## Constraints in force -/

/-- The forms of the constraints of a stack. -/
def Frames.forms (f : Frames) : List LinearForm := f.constraints.filterMap fun c => c.form.toOption

/-- The combinations of names that the constraints of a stack compare with numbers, each once. -/
def Frames.combinations (f : Frames) : List (LinComb String) :=
  ((f.forms.filter fun g => !g.isConstant).map LinearForm.coefficients).dedup

/-- The forms of the constraints in force are those of the assertions. -/
lemma forms_framesAfter (budget : ℕ) (requests : List Request) :
    (framesAfter requests).forms = (after budget requests).asserted.map Assertion.form := by
  have hforms := hasForms_after budget requests
  rw [Frames.forms, ← (represents_after budget requests).constraints, constraints,
    List.filterMap_map, ← List.filterMap_eq_map]
  refine List.filterMap_congr fun a ha => ?_
  rw [Function.comp_apply, hforms a ha]
  rfl

lemma combinations_framesAfter (budget : ℕ) (requests : List Request) :
    (framesAfter requests).combinations =
      ((comparisons (after budget requests).asserted).map fun c => c.form.coefficients).dedup := by
  rw [Frames.combinations, forms_framesAfter budget, List.filter_map, comparisons, List.map_map,
    List.map_map]
  rfl

/-! ## Names of the model of a solver -/

section Model

variable {s : Solver} {t : Tableau} (h : s.HasForms) (ht : (enter s.asserted ∅).result = .ok t)

include h ht

/-- The names of the tableau are names of the solver that some form mentions. -/
lemma mem_vars_of_number {name : String} {k : ℕ} (hk : t.numbers[name]? = some k) :
    name ∈ s.vars ∧ ∃ a ∈ s.asserted, a.form.coefficients.coeff name ≠ 0 := by
  obtain ⟨c, hc, hname⟩ := (stemsFrom_of_enter h ht).number name k hk
  obtain ⟨a, ha, -, rfl⟩ := mem_comparisons.1 hc
  refine ⟨mem_vars_iff.2 ⟨a.constraint, List.mem_map.2 ⟨a, ha, rfl⟩, ?_⟩, a, ha, hname⟩
  exact Constraint.mem_vars_of_coeff_ne_zero (h a ha) hname

/-- A name has a value exactly if it is one of the solver. -/
lemma isSome_completeModel_iff (name : String) :
    ((s.completeModel (t.run s.budget).final).get? name).isSome = true ↔ name ∈ s.vars := by
  have hsame := ((h.of_ok ht).1.run s.budget).2
  refine ⟨fun hsome => ?_, completeModel_isSome⟩
  by_contra hname
  rw [completeModel_get?, if_neg hname, Option.or_none, Tableau.model_get?, hsame.numbers,
    Option.isSome_map] at hsome
  obtain ⟨k, hk⟩ := Option.isSome_iff_exists.1 hsome
  exact hname (mem_vars_of_number h ht hk).1

/-- A name that cancels in every form is zero. -/
lemma completeModel_eq_zero {name : String} (hname : name ∈ s.vars)
    (hcancels : ∀ a ∈ s.asserted, a.form.coefficients.coeff name = 0) :
    (s.completeModel (t.run s.budget).final).get? name = some 0 := by
  have hsame := ((h.of_ok ht).1.run s.budget).2
  have hnone : t.numbers[name]? = none := Option.eq_none_iff_forall_ne_some.2 fun k hk => by
    obtain ⟨-, a, ha, hne⟩ := mem_vars_of_number h ht hk
    exact hne (hcancels a ha)
  rw [completeModel_get?, Tableau.model_get?, hsame.numbers, hnone, if_pos hname]
  rfl

end Model

/-- A name whose value is not zero has a variable that is not zero. -/
lemma exists_number_of_ne_zero {s : Solver} {t : Tableau} {name : String} {q : ℚ} (hq : q ≠ 0)
    (hname : (s.completeModel t).get? name = some q) :
    ∃ k, t.numbers[name]? = some k ∧ t.value k ≠ 0 := by
  rw [completeModel_get?, Tableau.model_get?] at hname
  cases hk : t.numbers[name]? with
  | none =>
    rw [hk, Option.map_none, Option.none_or] at hname
    split_ifs at hname
    exact absurd (Option.some.inj hname).symm hq
  | some k =>
    refine ⟨k, rfl, fun hzero => hq ?_⟩
    rw [hk, Option.map_some, Option.some_or, hzero, Option.some.injEq] at hname
    rw [← hname, DeltaRat.evalAt, DeltaRat.real_zero, DeltaRat.delta_zero, zero_mul, add_zero]

/-- **No more names have a value other than zero than there are combinations**: such a name has a
basic variable, and the search keeps the number of these. -/
lemma length_nonzero_le {s : Solver} (h : s.HasForms) {t : Tableau}
    (ht : (enter s.asserted ∅).result = .ok t) :
    ((s.completeModel (t.run s.budget).final).toList.filter fun e => e.2 ≠ 0).length ≤
      ((comparisons s.asserted).map fun c => c.form.coefficients).dedup.length := by
  have hwf := (h.of_ok ht).1
  set u := (t.run s.budget).final
  have hnodup : (((s.completeModel u).toList.filter fun e => e.2 ≠ 0).map Prod.fst).Nodup :=
    (s.completeModel u).nodup_map_fst_toList.sublist (List.filter_sublist.map Prod.fst)
  calc ((s.completeModel u).toList.filter fun e => e.2 ≠ 0).length
      = (((s.completeModel u).toList.filter fun e => e.2 ≠ 0).map Prod.fst).length :=
        (List.length_map _).symm
    _ ≤ u.rows.size := by
        refine (hwf.run s.budget).1.length_le_size_rows hnodup fun name hname => ?_
        obtain ⟨e, he, rfl⟩ := List.mem_map.1 hname
        obtain ⟨hmem, hne⟩ := List.mem_filter.1 he
        exact exists_number_of_ne_zero (of_decide_eq_true hne) (Model.get?_eq_some_iff.2 hmem)
    _ = t.rows.size := hwf.size_rows_run s.budget
    _ ≤ _ := (keeps_of_enter h ht).size_rows_le (stemsFrom_of_enter h ht)

/-- **A model assigns exactly the names of the constraints in force, and few of them a value other
than zero.** Its names, each once and in their order, are the variables of the solver: the names
that are carried by a side of a constraint that no request took back. A name with coefficient zero
in the form of every constraint in force has the value zero. And no more names have another value
than there are combinations of names that the constraints in force compare with numbers.

**Proof sketch.** The tableau numbers only names that occur in forms, and forms mention only names
of their constraints; all other names of the constraints are added with zero. A name has a value
other than zero only if its variable is basic, and the search keeps the number of basic variables,
which begin as the slacks, one for each combination. -/
theorem model_names_of_solve_eq_sat (budget : ℕ) (requests : List Request) (m : Model)
    (h : (after budget requests).solve = .ok (.sat m)) :
    (m.toList.map Prod.fst = (after budget requests).vars.toList ∧
      (m.toList.map Prod.fst).Nodup ∧
      ∀ name, name ∈ (after budget requests).vars ↔ ∃ c ∈ (framesAfter requests).constraints,
        BinaryTree.Carries name c.left ∨ BinaryTree.Carries name c.right) ∧
    (∀ name ∈ (after budget requests).vars,
      (∀ f ∈ (framesAfter requests).forms, f.coefficients.coeff name = 0) →
        m.get? name = some 0) ∧
    (m.toList.filter fun e => e.2 ≠ 0).length ≤ (framesAfter requests).combinations.length := by
  have hforms := hasForms_after budget requests
  obtain ⟨t, ht, -, rfl⟩ := solve_eq_sat h
  have hnames := Model.map_fst_toList (isSome_completeModel_iff hforms ht)
  refine ⟨⟨hnames, Model.nodup_map_fst_toList _, fun name => ?_⟩, fun name hname hcancels => ?_, ?_⟩
  · rw [mem_vars_iff, (represents_after budget requests).constraints]
    simp only [Constraint.vars, Term.vars, Std.ExtTreeSet.mem_union_iff, BinaryTree.mem_names_iff]
  · rw [forms_framesAfter budget, List.forall_mem_map] at hcancels
    exact completeModel_eq_zero hforms ht hname hcancels
  · rw [combinations_framesAfter budget]
    exact length_nonzero_le hforms ht

/-- The constraints `x + y ≥ 2`, `x + y < 5` and `z - z ≤ w` compare two combinations of names. The
model assigns `w`, `x`, `y` and `z` but not `v`, whose scope is closed; `z` cancels and is zero, and
at most two names are not. -/
theorem model_names_of_solve_eq_sat_closed :
    (after 5 [.add ⟨.node .add (.var "x") (.var "y"), .ge, .lit 2⟩, .push,
      .add ⟨.var "v", .eq, .lit 1⟩, .pop, .add ⟨.node .add (.var "x") (.var "y"), .lt, .lit 5⟩,
      .add ⟨.node .sub (.var "z") (.var "z"), .le, .var "w"⟩]).solve =
        .ok (.sat (Model.ofList [("w", 0), ("x", 2), ("y", 0), ("z", 0)])) ∧
    (Model.ofList [("w", 0), ("x", 2), ("y", 0), ("z", 0)]).toList.map Prod.fst =
      (after 5 [.add ⟨.node .add (.var "x") (.var "y"), .ge, .lit 2⟩, .push,
        .add ⟨.var "v", .eq, .lit 1⟩, .pop, .add ⟨.node .add (.var "x") (.var "y"), .lt, .lit 5⟩,
        .add ⟨.node .sub (.var "z") (.var "z"), .le, .var "w"⟩]).vars.toList ∧
    (Model.ofList [("w", 0), ("x", 2), ("y", 0), ("z", 0)]).get? "z" = some 0 ∧
    ((Model.ofList [("w", 0), ("x", 2), ("y", 0), ("z", 0)]).toList.filter
      fun e => e.2 ≠ 0).length ≤ 2 := by
  have hsolve : (after 5 [.add ⟨.node .add (.var "x") (.var "y"), .ge, .lit 2⟩, .push,
      .add ⟨.var "v", .eq, .lit 1⟩, .pop, .add ⟨.node .add (.var "x") (.var "y"), .lt, .lit 5⟩,
      .add ⟨.node .sub (.var "z") (.var "z"), .le, .var "w"⟩]).solve =
        .ok (.sat (Model.ofList [("w", 0), ("x", 2), ("y", 0), ("z", 0)])) := by
    cbv
  obtain ⟨⟨hnames, -, -⟩, hcancels, hlength⟩ := model_names_of_solve_eq_sat 5 _ _ hsolve
  refine ⟨hsolve, hnames, hcancels "z" (by decide +kernel) (by decide +kernel), ?_⟩
  exact hlength.trans (by decide +kernel)

end Solver

end ExactArith
