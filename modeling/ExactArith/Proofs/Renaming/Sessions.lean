import ExactArith.Proofs.Renaming.Tableaux
import ExactArith.Proofs.Solver.Budget

set_option autoImplicit false
set_option relaxedAutoImplicit false

/-!
# Renamed sessions

A session whose requests have new names leads to a solver with new names, and the two solvers decide
alike if the renaming keeps the order of the names: they make the same pivots, and where the one
gives a model, the other gives the model with new names. So an answer depends on the names only
through their order.

## Main definitions

* `ExactArith.Model.rename`, `ExactArith.Verdict.rename`, `ExactArith.Solver.Request.rename` —
  models, verdicts and requests with new names.
* `ExactArith.Solver.Renames` — a solver is another one with new names.

## Main results

* `ExactArith.Solver.Renames.perform` — a request has the same effect under the new names.
* `ExactArith.Solver.Renames.solve` — solvers that differ in the names decide alike.
* `ExactArith.Solver.solve_after_rename` — so do all sessions that differ in the names.
-/

namespace ExactArith

variable {f : String → String} {S : Set String}

/-! ## Models with new names -/

/-- A model with new names. -/
def Model.rename (f : String → String) (m : Model) : Model :=
  ⟨.ofList (m.toList.map fun e => (f e.1, e.2))⟩

/-- A verdict with new names. -/
def Verdict.rename (f : String → String) : Verdict → Verdict
  | .sat m => .sat (m.rename f)
  | .unsat => .unsat

/-! ## Assertions and solvers with new names -/

/-- An assertion with the form of its constraint is another one with new names, all of whose old
names lie in a set. -/
structure Assertion.Renames (f : String → String) (S : Set String) (a b : Assertion) : Prop where
  constraint : b.constraint = a.constraint.rename f
  form : a.form.Renames f b.form
  form_eq : a.constraint.form = .ok a.form
  mem : ∀ name ∈ a.constraint.vars, name ∈ S

/-- The form of an assertion mentions the old names only. -/
lemma Assertion.Renames.mem_of_coeff_ne_zero {a b : Assertion} (h : a.Renames f S b) {name : String}
    (hname : a.form.coefficients.coeff name ≠ 0) : name ∈ S :=
  h.mem name (Constraint.mem_vars_of_coeff_ne_zero h.form_eq hname)

namespace Solver

/-- A request with new names. -/
def Request.rename (f : String → String) : Request → Request
  | .add c => .add (c.rename f)
  | .push => .push
  | .pop => .pop
  | .reset => .reset
  | .solve => .solve

/-- The names that the constraints of some requests have. -/
def namesOf (requests : List Request) : Set String :=
  {name | ∃ c, Request.add c ∈ requests ∧ name ∈ c.vars}

/-- A solver is another one with new names, all of whose old names lie in a set. -/
structure Renames (f : String → String) (S : Set String) (s s' : Solver) : Prop where
  budget : s'.budget = s.budget
  marks : s'.marks = s.marks
  asserted : List.Forall₂ (Assertion.Renames f S) s.asserted s'.asserted

namespace Renames

variable {s s' : Solver}

lemma constraints (h : Renames f S s s') :
    s'.constraints = s.constraints.map (Constraint.rename f) := by
  rw [Solver.constraints, Solver.constraints]
  have hasserted := h.asserted
  generalize s.asserted = assertions, s'.asserted = assertions' at hasserted
  induction hasserted with
  | nil => rfl
  | cons hab _ ih => rw [List.map_cons, List.map_cons, List.map_cons, ih, hab.constraint]

/-- **A request has the same effect under the new names.** In particular it is refused alike. -/
lemma perform (h : Renames f S s s') (hf : Set.InjOn f S) (request : Request)
    (hnames : ∀ c, request = .add c → ∀ name ∈ c.vars, name ∈ S) :
    Renames f S (s.perform request) (s'.perform (request.rename f)) := by
  obtain ⟨hbudget, hmarks, hasserted⟩ := h
  cases request with
  | add c =>
    have hc := hnames c rfl
    have halike := c.formsAlike_rename hf hc
    rw [Request.rename, Solver.perform, Solver.perform, add, add]
    generalize hp : c.form = p, (c.rename f).form = q at halike ⊢
    cases halike with
    | error error => exact ⟨hbudget, hmarks, hasserted⟩
    | ok hform =>
      refine ⟨hbudget, hmarks, List.rel_append hasserted (.cons ?_ .nil)⟩
      exact ⟨rfl, hform, hp, hc⟩
  | push => exact ⟨hbudget, congrArg₂ List.cons hasserted.length_eq.symm hmarks, hasserted⟩
  | pop =>
    rw [Request.rename, Solver.perform, Solver.perform, pop, pop, hmarks]
    cases hm : s.marks with
    | nil => exact ⟨hbudget, hmarks, hasserted⟩
    | cons mark marks => exact ⟨hbudget, rfl, List.forall₂_take mark hasserted⟩
  | reset => exact ⟨hbudget, rfl, .nil⟩
  | solve => exact ⟨hbudget, hmarks, hasserted⟩

/-- **So have any requests.** -/
lemma after (hf : Set.InjOn f S) (budget : ℕ) (requests : List Request)
    (hnames : namesOf requests ⊆ S) :
    Renames f S (after budget requests) (after budget (requests.map (Request.rename f))) := by
  induction requests using List.reverseRecOn with
  | nil => exact ⟨rfl, rfl, .nil⟩
  | append_singleton requests request ih =>
    have hfirst : namesOf requests ⊆ S := by
      rintro name ⟨c, hc, hname⟩
      exact hnames ⟨c, List.mem_append_left _ hc, hname⟩
    rw [Solver.after, Solver.after, List.map_append, List.foldl_append, List.foldl_append]
    refine (ih hfirst).perform hf request ?_
    rintro c rfl name hname
    exact hnames ⟨c, by simp, hname⟩

end Renames

/-! ## Decisions under new names -/

/-- A contradiction with new names. The slack is the same. -/
def Contradiction.rename (f : String → String) : Contradiction → Contradiction
  | .falseConstant c => .falseConstant (c.rename f)
  | .bounds slack c => .bounds slack (c.rename f)

/-- Assertions are entered into a tableau with the same outcome, up to the names. -/
inductive TableauxAlike (f : String → String) (S : Set String) :
    Except Contradiction Tableau → Except Contradiction Tableau → Prop
  | ok {t u : Tableau} (h : t.Renames f S u) : TableauxAlike f S (.ok t) (.ok u)
  | error (contradiction : Contradiction) :
    TableauxAlike f S (.error contradiction) (.error (contradiction.rename f))

/-- **Assertions with new names are entered alike.**

**Proof sketch.** Induction on the assertions. A form is constant or not under both names, with the
same constant, and assertions bound the same slack in the same way. -/
lemma tableauxAlike_enter (hf : StrictMonoOn f S) {assertions assertions' : List Assertion}
    (h : List.Forall₂ (Assertion.Renames f S) assertions assertions') {t u : Tableau}
    (htu : t.Renames f S u) :
    TableauxAlike f S (enter assertions t).result (enter assertions' u).result := by
  induction h generalizing t u with
  | nil => exact .ok htu
  | @cons a b assertions assertions' hab _ ih =>
    have hmem : ∀ name, a.form.coefficients.coeff name ≠ 0 → name ∈ S := fun name hname =>
      hab.mem_of_coeff_ne_zero hname
    have hrelation : (a.constraint.rename f).relation = a.constraint.relation := rfl
    obtain ⟨hslack, hassert⟩ := htu.assert hf hab.form hmem a.constraint.relation
    rw [enter, enter, hab.form.isConstant_eq hmem hf.injOn, hab.form.constant, hab.constraint,
      hrelation]
    split_ifs with hconst hholds
    · exact ih htu
    · exact .error (.falseConstant a.constraint)
    · dsimp only
      rw [hslack, hassert.isConflicting_eq]
      split_ifs with hconflict
      · exact .error (.bounds _ a.constraint)
      · exact ih hassert

namespace Renames

variable {s s' : Solver} (h : Renames f S s s')

include h

/-- The variables of a solver are renamed. -/
lemma mem_vars {key : String} : key ∈ s'.vars ↔ ∃ name, f name = key ∧ name ∈ s.vars := by
  simp only [mem_vars_iff, h.constraints, List.mem_map]
  constructor
  · rintro ⟨-, ⟨c, hc, rfl⟩, hkey⟩
    obtain ⟨name, rfl, hname⟩ := c.mem_vars_rename.1 hkey
    exact ⟨name, rfl, c, hc, hname⟩
  · rintro ⟨name, rfl, c, hc, hname⟩
    exact ⟨c.rename f, ⟨c, hc, rfl⟩, c.mem_vars_rename.2 ⟨name, rfl, hname⟩⟩

/-- The variables of a solver lie in the set of old names. -/
lemma mem_of_mem_vars {name : String} (hname : name ∈ s.vars) : name ∈ S := by
  obtain ⟨c, hc, hname⟩ := mem_vars_iff.1 hname
  obtain ⟨a, ha, rfl⟩ := List.mem_map.1 hc
  obtain ⟨i, hi, rfl⟩ := List.getElem_of_mem ha
  exact (h.asserted.get hi (h.asserted.length_eq ▸ hi)).mem name hname

variable {t u : Tableau} (htu : t.Renames f S u)

include htu

/-- So do the names of the completed model. -/
lemma namesIn_completeModel : SortedMap.NamesIn (s.completeModel t).values S := by
  intro name v hv
  rw [← Model.get?, completeModel_get?, Option.or_eq_some_iff] at hv
  rcases hv with hv | ⟨-, hv⟩
  · exact htu.namesIn_model name v hv
  · split_ifs at hv with hname
    exact h.mem_of_mem_vars hname

variable (hf : Set.InjOn f S)

include hf

/-- **Models are completed alike**: the variables of the one solver that its tableau leaves out are
those of the other one, under the new names. -/
lemma renames_completeModel :
    SortedMap.Renames f (s.completeModel t).values (s'.completeModel u).values := by
  have hget : ∀ {name : String}, name ∈ S → u.model.get? (f name) = t.model.get? name :=
    fun hname => htu.model.getElem?_eq htu.namesIn_model hf hname
  intro key v
  change (s'.completeModel u).get? key = some v ↔
    ∃ name, f name = key ∧ (s.completeModel t).get? name = some v
  simp only [completeModel_get?, Option.or_eq_some_iff]
  constructor
  · rintro (hkey | ⟨hnone, hkey⟩)
    · obtain ⟨name, rfl, hname⟩ := (htu.model key v).1 hkey
      exact ⟨name, rfl, Or.inl hname⟩
    · split_ifs at hkey with hvars
      obtain ⟨name, rfl, hname⟩ := h.mem_vars.1 hvars
      refine ⟨name, rfl, Or.inr ⟨?_, (if_pos hname).trans hkey⟩⟩
      rwa [← hget (h.mem_of_mem_vars hname)]
  · rintro ⟨name, rfl, hname | ⟨hnone, hname⟩⟩
    · exact Or.inl ((htu.model _ v).2 ⟨name, rfl, hname⟩)
    · split_ifs at hname with hvars
      refine Or.inr ⟨?_, (if_pos (h.mem_vars.2 ⟨name, rfl, hvars⟩)).trans hname⟩
      rwa [hget (h.mem_of_mem_vars hvars)]

/-- The model of the one solver is that of the other one with new names. -/
lemma completeModel_eq : s'.completeModel u = (s.completeModel t).rename f :=
  congrArg Model.mk <|
    (h.renames_completeModel htu hf).unique (.ofList (h.namesIn_completeModel htu) hf)

end Renames

/-- **Solvers that differ in the names decide alike**, if the renaming keeps the order of the names:
they make the same pivots and give the same answer, a model under the new names. -/
lemma Renames.solve {s s' : Solver} (h : Renames f S s s') (hf : StrictMonoOn f S) :
    s'.search.pivots = s.search.pivots ∧ s'.solve = s.solve.map (Verdict.rename f) := by
  have halike := tableauxAlike_enter hf h.asserted (.empty f S)
  generalize hp : (enter s.asserted ∅).result = p, hq : (enter s'.asserted ∅).result = q at halike
  cases halike with
  | error contradiction =>
    refine ⟨?_, ?_⟩
    · simp only [search, hp, hq, Except.map, Search.pivots]
    · rw [solve_of_error hp, solve_of_error hq]
      rfl
  | @ok t u htu =>
    obtain ⟨hpivots, hending, hfinal⟩ := htu.run s.budget
    refine ⟨?_, ?_⟩
    · simp only [search, hp, hq, Except.map, Search.pivots, h.budget, hpivots]
    · rw [solve_of_ok hp, solve_of_ok hq, h.budget, hending]
      cases (t.run s.budget).ending with
      | feasible =>
        dsimp only
        rw [h.completeModel_eq hfinal hf.injOn]
        rfl
      | noRepair basic => rfl
      | exhausted => rfl

/-- **An answer depends on the names only through their order**, for every budget and every list of
requests. Let a renaming be strictly increasing on the names of the constraints that are asserted.
Then the session with new names asserts the constraints with new names, makes the same pivots, and
gives the same answer: the model with new names, that there is none, or that the budget is used up.

**Proof sketch.** Constraints with new names have the forms with new names, whose entries stand in
the same order. So their variables get the same numbers, and the tableaux differ in the names only,
which the search does not look at. -/
theorem solve_after_rename (budget : ℕ) (requests : List Request) (f : String → String)
    (hf : StrictMonoOn f (namesOf requests)) :
    (after budget (requests.map (Request.rename f))).constraints =
        (after budget requests).constraints.map (Constraint.rename f) ∧
      (after budget (requests.map (Request.rename f))).search.pivots =
        (after budget requests).search.pivots ∧
      (after budget (requests.map (Request.rename f))).solve =
        (after budget requests).solve.map (Verdict.rename f) := by
  have hrenames := Renames.after hf.injOn budget requests subset_rfl
  exact ⟨hrenames.constraints, hrenames.solve hf⟩

/-- The order of `x` and `y` is that of `a` and `b`, so `a + b ≥ 2` and `a < 0` have the model of
`x + y ≥ 2` and `x < 0` under the new names, found by the same two pivots. -/
theorem solve_after_rename_pair :
    (after 2 [.add ⟨.node .add (.var "a") (.var "b"), .ge, .lit 2⟩,
        .add ⟨.var "a", .lt, .lit 0⟩]).search.pivots =
      (after 2 [.add ⟨.node .add (.var "x") (.var "y"), .ge, .lit 2⟩,
        .add ⟨.var "x", .lt, .lit 0⟩]).search.pivots ∧
    (after 2 [.add ⟨.node .add (.var "x") (.var "y"), .ge, .lit 2⟩,
        .add ⟨.var "x", .lt, .lit 0⟩]).solve = .ok (.sat (Model.ofList [("x", -1), ("y", 3)])) ∧
    (after 2 [.add ⟨.node .add (.var "a") (.var "b"), .ge, .lit 2⟩,
        .add ⟨.var "a", .lt, .lit 0⟩]).solve = .ok (.sat (Model.ofList [("a", -1), ("b", 3)])) := by
  have hf : StrictMonoOn (fun name => if name = "x" then "a" else "b")
      (namesOf [.add ⟨.node .add (.var "x") (.var "y"), .ge, .lit 2⟩,
        .add ⟨.var "x", .lt, .lit 0⟩]) := by
    have hnames : ∀ name ∈ namesOf [.add ⟨.node .add (.var "x") (.var "y"), .ge, .lit 2⟩,
        .add ⟨.var "x", .lt, .lit 0⟩], name = "x" ∨ name = "y" := by
      rintro name ⟨c, hc, hname⟩
      simp only [List.mem_cons, Request.add.injEq, List.not_mem_nil, or_false] at hc
      rcases hc with rfl | rfl
      · simpa [Constraint.vars, Std.ExtTreeSet.mem_union_iff, eq_comm] using hname
      · left
        simpa [Constraint.vars, Std.ExtTreeSet.mem_union_iff, eq_comm] using hname
    intro name hname other hother hlt
    rcases hnames name hname with rfl | rfl <;> rcases hnames other hother with rfl | rfl
    · exact absurd hlt (lt_irrefl _)
    · decide
    · exact absurd hlt (by decide)
    · exact absurd hlt (lt_irrefl _)
  have hsolve : (after 2 [.add ⟨.node .add (.var "x") (.var "y"), .ge, .lit 2⟩,
      .add ⟨.var "x", .lt, .lit 0⟩]).solve = .ok (.sat (Model.ofList [("x", -1), ("y", 3)])) := by
    cbv
  obtain ⟨-, hpivots, hrenamed⟩ := solve_after_rename 2 _ _ hf
  rw [hsolve] at hrenamed
  exact ⟨hpivots, hsolve, hrenamed.trans (by decide +kernel)⟩

end Solver

end ExactArith
