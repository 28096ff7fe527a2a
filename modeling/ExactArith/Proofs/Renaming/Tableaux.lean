import ExactArith.Proofs.Renaming.Forms

set_option autoImplicit false
set_option relaxedAutoImplicit false

/-!
# Tableaux of renamed forms

A tableau knows names only by the numbers of their variables, and numbers are given in the order of
the names. So if a renaming keeps this order, asserting forms with new names gives the same tableau
but for the names, with the same slacks and bounds; and the search, which does not look at names,
makes the same pivots.

## Main definitions

* `ExactArith.Tableau.withNumbers` — a tableau with other names for its problem variables.
* `ExactArith.Tableau.Renames` — a tableau is another one with new names.

## Main results

* `ExactArith.Tableau.Renames.assert` — forms with new names are asserted alike.
* `ExactArith.Tableau.Renames.run` — the search makes the same pivots and ends in the same way.
* `ExactArith.Tableau.Renames.model` — the model is the other one with new names.
-/

namespace ExactArith.Tableau

/-! ## Other names for the same variables -/

section WithNumbers

variable (t : Tableau) (numbers : Std.ExtTreeMap String ℕ compare)

/-- A tableau with other names for its problem variables. -/
def withNumbers : Tableau := { t with numbers := numbers }

lemma slack_withNumbers (row : LinComb ℕ) : (t.withNumbers numbers).slack row =
    ((t.slack row).1, (t.slack row).2.withNumbers numbers) := by
  have hslacks : (t.withNumbers numbers).slacks = t.slacks := rfl
  rw [slack, slack, hslacks]
  cases t.slacks.lookup row <;> rfl

lemma tightenLower_withNumbers (k : ℕ) (b : DeltaRat) :
    (t.withNumbers numbers).tightenLower k b = (t.tightenLower k b).withNumbers numbers := by
  have hbounds : (t.withNumbers numbers).lower = t.lower := rfl
  rw [tightenLower, tightenLower, hbounds]
  split_ifs <;> rfl

lemma tightenUpper_withNumbers (k : ℕ) (b : DeltaRat) :
    (t.withNumbers numbers).tightenUpper k b = (t.tightenUpper k b).withNumbers numbers := by
  have hbounds : (t.withNumbers numbers).upper = t.upper := rfl
  rw [tightenUpper, tightenUpper, hbounds]
  split_ifs <;> rfl

lemma bound_withNumbers (k : ℕ) (relation : Relation) (b : ℚ) :
    (t.withNumbers numbers).bound k relation b = (t.bound k relation b).withNumbers numbers := by
  cases relation <;> simp only [bound, tightenLower_withNumbers, tightenUpper_withNumbers]

/-- The search does not look at names. -/
lemma step_withNumbers : (t.withNumbers numbers).step =
    match t.step with
    | .feasible => .feasible
    | .noRepair basic => .noRepair basic
    | .pivot leaving entering next => .pivot leaving entering (next.withNumbers numbers) := by
  have hviolation : (t.withNumbers numbers).violation? = t.violation? := rfl
  have hentering : ∀ v, (t.withNumbers numbers).entering? v = t.entering? v := fun _ => rfl
  rw [step, step, hviolation]
  cases t.violation? with
  | none => rfl
  | some v =>
    dsimp only
    rw [hentering]
    cases t.entering? v <;> rfl

/-- **The names make no difference to a search**, and they stay as they are.

**Proof sketch.** Induction on the budget: the first step is the same, and if it is a pivot, so is
the rest of the search. -/
lemma run_withNumbers (budget : ℕ) : (t.withNumbers numbers).run budget =
    ⟨(t.run budget).pivots, (t.run budget).ending,
      (t.run budget).final.withNumbers numbers⟩ := by
  induction budget generalizing t with
  | zero =>
    rw [run, run, step_withNumbers]
    cases t.step <;> rfl
  | succ budget ih =>
    rw [run, run, step_withNumbers]
    cases t.step with
    | feasible => rfl
    | noRepair basic => rfl
    | pivot leaving entering next =>
      dsimp only
      rw [ih]

/-- A search keeps the names. -/
lemma numbers_run (budget : ℕ) : (t.run budget).final.numbers = t.numbers := by
  have hreaches : ∀ {u}, Relation.ReflTransGen PivotsTo t u → u.numbers = t.numbers := by
    intro u hu
    induction hu with
    | refl => rfl
    | tail _ hlast ih =>
      obtain ⟨leaving, entering, hstep⟩ := hlast
      obtain ⟨v, a, -, -, rfl⟩ := step_eq_pivot hstep
      exact ih
  exact hreaches (run_reaches budget t).1

end WithNumbers

/-! ## Renamed tableaux -/

/-- A tableau is another one with new names, all of whose old names lie in a set. -/
structure Renames (f : String → String) (S : Set String) (t u : Tableau) : Prop where
  eq_withNumbers : ∃ numbers, u = t.withNumbers numbers
  numbers : SortedMap.Renames f t.numbers u.numbers
  namesIn : SortedMap.NamesIn t.numbers S

namespace Renames

variable {f : String → String} {S : Set String} {t u : Tableau}

lemma empty (f : String → String) (S : Set String) : Renames f S ∅ ∅ where
  eq_withNumbers := ⟨∅, rfl⟩
  numbers := .empty f
  namesIn := fun name k hk => by
    change (∅ : Std.ExtTreeMap String ℕ compare)[name]? = some k at hk
    simp at hk

section Number

variable (h : Renames f S t u) (hf : Set.InjOn f S)

include h hf

/-- **A name and its new name have the same variable.** -/
lemma number {name : String} (hname : name ∈ S) :
    (u.number (f name)).1 = (t.number name).1 ∧
      Renames f S (t.number name).2 (u.number (f name)).2 := by
  obtain ⟨⟨numbers, rfl⟩, hnumbers, hnames⟩ := h
  have hget := hnumbers.getElem?_eq hnames hf hname
  rw [Tableau.number, Tableau.number, hget]
  cases hk : t.numbers[name]? with
  | some k => exact ⟨rfl, ⟨numbers, rfl⟩, hnumbers, hnames⟩
  | none =>
    refine ⟨rfl, ⟨_, rfl⟩, hnumbers.insert hnames hf hname t.size, fun other k hother => ?_⟩
    rcases SortedMap.getElem?_insert_eq_some_iff.1 hother with ⟨rfl, -⟩ | ⟨-, hother⟩
    · exact hname
    · exact hnames other k hother

/-- Entries are read alike: they have the same variables and so make the same row. -/
lemma foldl_enterEntry (entries : List (String × ℚ)) (hentries : ∀ e ∈ entries, e.1 ∈ S)
    (row : LinComb ℕ) :
    ((entries.map fun e => (f e.1, e.2)).foldl enterEntry (row, u)).1 =
        (entries.foldl enterEntry (row, t)).1 ∧
      Renames f S (entries.foldl enterEntry (row, t)).2
        ((entries.map fun e => (f e.1, e.2)).foldl enterEntry (row, u)).2 := by
  induction entries generalizing row t u with
  | nil => exact ⟨rfl, h⟩
  | cons e entries ih =>
    obtain ⟨hnumber, hrenames⟩ := h.number hf (hentries e List.mem_cons_self)
    rw [List.map_cons, List.foldl_cons, List.foldl_cons, enterEntry, enterEntry, hnumber]
    exact ih hrenames (fun e' he' => hentries e' (List.mem_cons_of_mem e he')) _

end Number

/-- **Forms with new names are asserted alike**: the slack and its bounds are the same. The entries
of the forms are read in the order of the names, which the renaming keeps. -/
lemma assert (h : Renames f S t u) (hf : StrictMonoOn f S) {p q : LinearForm} (hpq : p.Renames f q)
    (hp : ∀ name, p.coefficients.coeff name ≠ 0 → name ∈ S) (relation : Relation) :
    (u.assert q relation).1 = (t.assert p relation).1 ∧
      Renames f S (t.assert p relation).2 (u.assert q relation).2 := by
  have hcoeffs := hpq.coefficients.coeffs hp hf.injOn
  have hnames : SortedMap.NamesIn p.coefficients.coeffs S := fun name a ha => by
    obtain ⟨rfl, hne⟩ := hpq.coefficients.isReduced.getElem?_eq_some_iff.1 ha
    exact hp name hne
  have hlist : q.coefficients.toList = p.coefficients.toList.map fun e => (f e.1, e.2) :=
    hcoeffs.toList_eq hnames hf
  obtain ⟨hrow, hrenames⟩ := h.foldl_enterEntry hf.injOn p.coefficients.toList
    (fun e he => hnames e.1 e.2 (LinComb.mem_toList_iff.1 he)) ∅
  rw [← hlist, ← combination_eq_foldl, ← combination_eq_foldl] at hrow hrenames
  obtain ⟨⟨numbers, heq⟩, hnumbers, hnamesIn⟩ := hrenames
  have hassert : u.assert q relation =
      ((t.assert p relation).1, (t.assert p relation).2.withNumbers numbers) := by
    rw [Tableau.assert, Tableau.assert]
    dsimp only
    rw [hrow, heq, slack_withNumbers, bound_withNumbers, hpq.constant]
  have hsame : (t.assert p relation).2.numbers = (t.combination p.coefficients).2.numbers := by
    change (((t.combination p.coefficients).2.slack _).2.bound _ _ _).numbers = _
    rw [numbers_bound, numbers_slack]
  rw [heq] at hnumbers
  rw [hassert]
  exact ⟨rfl, ⟨numbers, rfl⟩, hsame ▸ hnumbers, hsame ▸ hnamesIn⟩

lemma isConflicting_eq (h : Renames f S t u) (k : ℕ) : u.isConflicting k = t.isConflicting k := by
  obtain ⟨⟨numbers, rfl⟩, -, -⟩ := h
  rfl

/-- **The search makes the same pivots and ends in the same way.** -/
lemma run (h : Renames f S t u) (budget : ℕ) :
    (u.run budget).pivots = (t.run budget).pivots ∧ (u.run budget).ending = (t.run budget).ending ∧
      Renames f S (t.run budget).final (u.run budget).final := by
  obtain ⟨⟨numbers, rfl⟩, hnumbers, hnames⟩ := h
  rw [run_withNumbers]
  exact ⟨rfl, rfl, ⟨numbers, rfl⟩, (numbers_run t budget).symm ▸ hnumbers,
    (numbers_run t budget).symm ▸ hnames⟩

/-- **The model is the other one with new names**: the variables have the same values. -/
lemma model (h : Renames f S t u) : SortedMap.Renames f t.model.values u.model.values := by
  obtain ⟨⟨numbers, rfl⟩, hnumbers, -⟩ := h
  exact hnumbers.map fun k => (t.value k).evalAt t.concreteDelta

/-- The names of the model are names of the tableau. -/
lemma namesIn_model (h : Renames f S t u) : SortedMap.NamesIn t.model.values S := by
  intro name v hv
  rw [← Model.get?, model_get?] at hv
  obtain ⟨k, hk, -⟩ := Option.map_eq_some_iff.1 hv
  exact h.namesIn name k hk

end Renames

end ExactArith.Tableau
