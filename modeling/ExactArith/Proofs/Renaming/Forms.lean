import ExactArith.Proofs.Solver.Support
import Mathlib.Data.String.Basic

set_option autoImplicit false
set_option relaxedAutoImplicit false

/-!
# Renamed terms and their forms

Renaming the variables of a term renames the variables of its form. The operations on forms need
nothing of the renaming. Only the question whether a form is constant does: different variables must
not get the same name, or they might cancel. If the renaming keeps the order of the names as well,
the entries of a form stay in their order.

## Main definitions

* `ExactArith.SortedMap.Renames` — a map has the entries of another under new names.
* `ExactArith.Term.rename`, `ExactArith.Constraint.rename`, `ExactArith.SolverError.rename` — terms,
  constraints and errors with new names.
* `ExactArith.LinearForm.Renames` — a form is another one with new names.
* `ExactArith.FormsAlike` — two attempts at a form end in the same way, up to the names.

## Main results

* `ExactArith.SortedMap.Renames.toList_eq` — under an increasing renaming, entries keep their order.
* `ExactArith.LinearForm.Renames.isConstant_eq` — an injective renaming leaves a form constant
  or not.
* `ExactArith.Constraint.formsAlike_rename` — a constraint with new names has the form with new
  names, or fails in the same way.
-/

namespace ExactArith

/-! ## Maps with new names -/

namespace SortedMap

variable {β γ : Type} {f : String → String} {m n : Std.ExtTreeMap String β compare} {S : Set String}

/-- A map has the entries of another under new names. -/
def Renames (f : String → String) (m n : Std.ExtTreeMap String β compare) : Prop :=
  ∀ key v, n[key]? = some v ↔ ∃ name, f name = key ∧ m[name]? = some v

/-- All names of a map lie in a set. -/
def NamesIn (m : Std.ExtTreeMap String β compare) (S : Set String) : Prop :=
  ∀ (name : String) v, m[name]? = some v → name ∈ S

namespace Renames

lemma empty (f : String → String) :
    Renames f (∅ : Std.ExtTreeMap String β compare) ∅ := by
  intro key v
  simp

/-- A map determines the one with new names. -/
lemma unique {other : Std.ExtTreeMap String β compare} (h : Renames f m n)
    (hother : Renames f m other) : n = other :=
  Std.ExtTreeMap.ext_getElem? fun key => Option.ext fun v => (h key v).trans (hother key v).symm

lemma map (h : Renames f m n) (g : β → γ) :
    Renames f (m.map fun _ v => g v) (n.map fun _ v => g v) := by
  intro key w
  simp only [Std.ExtTreeMap.getElem?_map, Option.map_eq_some_iff, h key]
  constructor
  · rintro ⟨v, ⟨name, hname, hv⟩, hw⟩
    exact ⟨name, hname, v, hv, hw⟩
  · rintro ⟨name, hname, v, hv, hw⟩
    exact ⟨v, ⟨name, hname, hv⟩, hw⟩

/-- A name and its new name are looked up with the same result. -/
lemma getElem?_eq (h : Renames f m n) (hm : NamesIn m S) (hf : Set.InjOn f S) {name : String}
    (hname : name ∈ S) : n[f name]? = m[name]? := by
  refine Option.ext fun v => (h (f name) v).trans ⟨?_, fun hv => ⟨name, rfl, hv⟩⟩
  rintro ⟨other, hother, hv⟩
  exact hf (hm other v hv) hname hother ▸ hv

/-- A new entry under the old and under the new name. -/
lemma insert (h : Renames f m n) (hm : NamesIn m S) (hf : Set.InjOn f S) {name : String}
    (hname : name ∈ S) (v : β) : Renames f (m.insert name v) (n.insert (f name) v) := by
  intro key w
  simp only [getElem?_insert_eq_some_iff, h key]
  constructor
  · rintro (⟨rfl, rfl⟩ | ⟨hne, other, rfl, hw⟩)
    · exact ⟨name, rfl, Or.inl ⟨rfl, rfl⟩⟩
    · exact ⟨other, rfl, Or.inr ⟨fun heq => hne (heq ▸ rfl), hw⟩⟩
  · rintro ⟨other, rfl, ⟨rfl, rfl⟩ | ⟨hne, hw⟩⟩
    · exact Or.inl ⟨rfl, rfl⟩
    · exact Or.inr ⟨fun heq => hne (hf hname (hm other w hw) heq), other, rfl, hw⟩

/-- The entries under their new names make up the map with new names, if none of them get the
same name. -/
lemma ofList (hm : NamesIn m S) (hf : Set.InjOn f S) :
    Renames f m (.ofList (m.toList.map fun e => (f e.1, e.2))) := by
  have hdistinct : (m.toList.map fun e => (f e.1, e.2)).Pairwise fun a b =>
      ¬compare a.1 b.1 = .eq := by
    rw [List.pairwise_map]
    refine (pairwise_toList m).imp_of_mem fun {a b} ha hb hne heq => hne ?_
    exact hf (hm a.1 a.2 (Std.ExtTreeMap.mem_toList_iff_getElem?_eq_some.1 ha))
      (hm b.1 b.2 (Std.ExtTreeMap.mem_toList_iff_getElem?_eq_some.1 hb))
      (Std.compare_eq_iff_eq.1 heq)
  intro key v
  constructor
  · intro hkey
    have hmem : key ∈ (m.toList.map fun e => (f e.1, e.2)).map Prod.fst := by
      by_contra hkey'
      rw [Std.ExtTreeMap.getElem?_ofList_of_contains_eq_false (by simpa using hkey')] at hkey
      simp at hkey
    obtain ⟨e, he, rfl⟩ := List.mem_map.1 hmem
    obtain ⟨⟨name, w⟩, hname, rfl⟩ := List.mem_map.1 he
    rw [Std.ExtTreeMap.getElem?_ofList_of_mem (Std.compare_eq_iff_eq.2 rfl) hdistinct he] at hkey
    exact ⟨name, rfl, hkey ▸ Std.ExtTreeMap.mem_toList_iff_getElem?_eq_some.1 hname⟩
  · rintro ⟨name, rfl, hv⟩
    refine Std.ExtTreeMap.getElem?_ofList_of_mem (Std.compare_eq_iff_eq.2 rfl) hdistinct ?_
    exact List.mem_map.2 ⟨(name, v), Std.ExtTreeMap.mem_toList_iff_getElem?_eq_some.2 hv, rfl⟩

/-- **Under an increasing renaming, entries keep their order.** -/
lemma toList_eq (h : Renames f m n) (hm : NamesIn m S) (hf : StrictMonoOn f S) :
    n.toList = m.toList.map fun e => (f e.1, e.2) := by
  have hsorted : ∀ l : Std.ExtTreeMap String β compare,
      l.toList.Pairwise fun a b => a.1 < b.1 := by
    intro l
    simpa only [compare_lt_iff_lt] using l.ordered_keys_toList
  have hmem : ∀ e ∈ m.toList, e.1 ∈ S := fun e he =>
    hm e.1 e.2 (Std.ExtTreeMap.mem_toList_iff_getElem?_eq_some.1 he)
  have : Std.Antisymm fun a b : String × β => a.1 < b.1 :=
    ⟨fun a b hab hba => (lt_asymm hab hba).elim⟩
  have : Std.Irrefl fun a b : String × β => a.1 < b.1 := ⟨fun a => lt_irrefl a.1⟩
  -- both lists are sorted, and they have the same members
  refine List.Pairwise.eq_of_mem_iff (hsorted n)
    (List.pairwise_map.2 ((hsorted m).imp_of_mem fun he he' => hf (hmem _ he) (hmem _ he'))) ?_
  rintro ⟨key, v⟩
  rw [Std.ExtTreeMap.mem_toList_iff_getElem?_eq_some, h key v, List.mem_map]
  constructor
  · rintro ⟨name, rfl, hv⟩
    exact ⟨(name, v), Std.ExtTreeMap.mem_toList_iff_getElem?_eq_some.2 hv, rfl⟩
  · rintro ⟨⟨name, w⟩, he, heq⟩
    obtain ⟨rfl, rfl⟩ := Prod.mk.inj heq
    exact ⟨name, rfl, Std.ExtTreeMap.mem_toList_iff_getElem?_eq_some.1 he⟩

end Renames

end SortedMap

/-! ## Terms with new names -/

/-- A term with new names. -/
def Term.rename (f : String → String) : Term → Term
  | .var name => .var (f name)
  | .lit value => .lit value
  | .node op left right => .node op (left.rename f) (right.rename f)

/-- A constraint with new names. -/
def Constraint.rename (f : String → String) (c : Constraint) : Constraint :=
  ⟨c.left.rename f, c.relation, c.right.rename f⟩

/-- What is not supported, with new names. -/
def Unsupported.rename (f : String → String) : Unsupported → Unsupported
  | .nonlinearProduct product => .nonlinearProduct (product.rename f)
  | .nonConstantDivisor divisor => .nonConstantDivisor (divisor.rename f)
  | .zeroDivisor quotient => .zeroDivisor (quotient.rename f)
  | .operation text => .operation text

/-- An error with new names. -/
def SolverError.rename (f : String → String) : SolverError → SolverError
  | .unsupported what => .unsupported (what.rename f)
  | .pivotLimit budget => .pivotLimit budget
  | .emptyScope => .emptyScope
  | .leafOperation leaf => .leafOperation (leaf.rename f)
  | .backend reason => .backend reason

/-- The names of a term are renamed. -/
lemma Term.mem_vars_rename {f : String → String} {key : String} (t : Term) :
    key ∈ (t.rename f).vars ↔ ∃ name, f name = key ∧ name ∈ t.vars := by
  induction t with
  | var other => simp [rename]
  | lit value => simp [rename]
  | node op left right ihl ihr =>
    simp only [rename, mem_vars_node, ihl, ihr, and_or_left, exists_or]

/-- The names of a constraint are renamed. -/
lemma Constraint.mem_vars_rename {f : String → String} {key : String} (c : Constraint) :
    key ∈ (c.rename f).vars ↔ ∃ name, f name = key ∧ name ∈ c.vars := by
  simp only [rename, vars, Std.ExtTreeSet.mem_union_iff, Term.mem_vars_rename, and_or_left,
    exists_or]

/-! ## Forms with new names -/

namespace LinComb

variable {f : String → String} {r s r' s' : LinComb String}

/-- A combination is another one with new names, where the coefficients of variables that get the
same name are added up. -/
structure Renames (f : String → String) (r s : LinComb String) : Prop where
  isReduced : r.IsReduced
  isReduced' : s.IsReduced
  toFinsupp_eq : s.toFinsupp = r.toFinsupp.mapDomain f

namespace Renames

lemma empty (f : String → String) : Renames f ∅ ∅ where
  isReduced := isReduced_empty
  isReduced' := isReduced_empty
  toFinsupp_eq := by rw [toFinsupp_empty, Finsupp.mapDomain_zero]

lemma single (f : String → String) (name : String) : Renames f (single name) (single (f name)) where
  isReduced := isReduced_single name
  isReduced' := isReduced_single (f name)
  toFinsupp_eq := by rw [toFinsupp_single, toFinsupp_single, Finsupp.mapDomain_single]

lemma addScaled (h : Renames f r s) (factor : ℚ) (h' : Renames f r' s') :
    Renames f (r.addScaled factor r') (s.addScaled factor s') where
  isReduced := h.isReduced.addScaled factor r'
  isReduced' := h.isReduced'.addScaled factor s'
  toFinsupp_eq := by
    rw [toFinsupp_addScaled, toFinsupp_addScaled, h.toFinsupp_eq, h'.toFinsupp_eq,
      Finsupp.mapDomain_add, Finsupp.mapDomain_smul]

lemma scale (h : Renames f r s) {factor : ℚ} (hfactor : factor ≠ 0) :
    Renames f (r.scale factor) (s.scale factor) where
  isReduced := h.isReduced.scale hfactor
  isReduced' := h.isReduced'.scale hfactor
  toFinsupp_eq := by
    rw [toFinsupp_scale, toFinsupp_scale, h.toFinsupp_eq, Finsupp.mapDomain_smul]

variable {S : Set String} (h : Renames f r s) (hr : ∀ name, r.coeff name ≠ 0 → name ∈ S)
  (hf : Set.InjOn f S)

include hr in
lemma support_subset : (r.toFinsupp.support : Set String) ⊆ S := by
  intro name hname
  rw [Finset.mem_coe, Finsupp.mem_support_iff, toFinsupp_apply] at hname
  exact hr name hname

include h hr hf

/-- Different variables do not cancel. -/
lemma isEmpty_eq : s.isEmpty = r.isEmpty := by
  rw [Bool.eq_iff_iff, h.isReduced'.isEmpty_iff, h.isReduced.isEmpty_iff, h.toFinsupp_eq]
  refine ⟨fun hzero => ?_, fun hzero => by rw [hzero, Finsupp.mapDomain_zero]⟩
  exact Finsupp.mapDomain_injOn S hf (support_subset hr) (by simp)
    (hzero.trans Finsupp.mapDomain_zero.symm)

/-- A variable keeps its coefficient under the new name. -/
lemma coeff_eq {name : String} (hname : name ∈ S) : s.coeff (f name) = r.coeff name := by
  rw [← toFinsupp_apply, h.toFinsupp_eq,
    Finsupp.mapDomain_apply' S _ (support_subset hr) hf hname, toFinsupp_apply]

/-- **The stored coefficients are those of the other combination**, under the new names. -/
lemma coeffs : SortedMap.Renames f r.coeffs s.coeffs := by
  classical
  intro key a
  simp only [h.isReduced'.getElem?_eq_some_iff, h.isReduced.getElem?_eq_some_iff]
  constructor
  · rintro ⟨rfl, ha⟩
    have hsupport : key ∈ (r.toFinsupp.mapDomain f).support := by
      rw [← h.toFinsupp_eq, Finsupp.mem_support_iff, toFinsupp_apply]
      exact ha
    obtain ⟨name, hname, rfl⟩ := Finset.mem_image.1 (Finsupp.mapDomain_support hsupport)
    have heq := h.coeff_eq hr hf (support_subset hr hname)
    exact ⟨name, rfl, heq.symm, ha⟩
  · rintro ⟨name, rfl, rfl, ha⟩
    exact ⟨h.coeff_eq hr hf (hr name ha), ha⟩

end Renames

end LinComb

namespace LinearForm

variable {f : String → String} {p q p' q' : LinearForm}

/-- A form is another one with new names. -/
structure Renames (f : String → String) (p q : LinearForm) : Prop where
  coefficients : p.coefficients.Renames f q.coefficients
  constant : q.constant = p.constant

namespace Renames

lemma ofConstant (f : String → String) (c : ℚ) : Renames f (ofConstant c) (ofConstant c) :=
  ⟨.empty f, rfl⟩

lemma ofVariable (f : String → String) (name : String) :
    Renames f (ofVariable name) (ofVariable (f name)) :=
  ⟨.single f name, rfl⟩

lemma plus (h : Renames f p q) (h' : Renames f p' q') : Renames f (p.plus p') (q.plus q') :=
  ⟨h.coefficients.addScaled 1 h'.coefficients, congrArg₂ (· + ·) h.constant h'.constant⟩

lemma scaled (h : Renames f p q) (factor : ℚ) : Renames f (p.scaled factor) (q.scaled factor) := by
  rw [LinearForm.scaled, LinearForm.scaled]
  split_ifs with hfactor
  · exact ofConstant f 0
  · exact ⟨h.coefficients.scale hfactor, congrArg (· * factor) h.constant⟩

lemma minus (h : Renames f p q) (h' : Renames f p' q') : Renames f (p.minus p') (q.minus q') :=
  h.plus (h'.scaled (-1))

/-- **An injective renaming leaves a form constant or not.** -/
lemma isConstant_eq {S : Set String} (h : Renames f p q)
    (hp : ∀ name, p.coefficients.coeff name ≠ 0 → name ∈ S) (hf : Set.InjOn f S) :
    q.isConstant = p.isConstant :=
  h.coefficients.isEmpty_eq hp hf

end Renames

end LinearForm

/-! ## The forms of terms -/

/-- Two attempts at a form end in the same way, up to the names. -/
inductive FormsAlike (f : String → String) :
    Except SolverError LinearForm → Except SolverError LinearForm → Prop
  | ok {p q : LinearForm} (h : p.Renames f q) : FormsAlike f (.ok p) (.ok q)
  | error (error : SolverError) : FormsAlike f (.error error) (.error (error.rename f))

namespace LinearForm

variable {f : String → String} {S : Set String}

/-- The forms of the operands of a node decide what becomes of it: nothing but their constants, and
whether they are constant, counts. -/
lemma Renames.formsAlike_combine {p q p' q' : LinearForm} (h : Renames f p q)
    (h' : Renames f p' q') (hconst : q.isConstant = p.isConstant)
    (hconst' : q'.isConstant = p'.isConstant) (op : Operator) (left right : Term) :
    FormsAlike f (p.combine (.node op left right) p')
      (q.combine (.node op (left.rename f) (right.rename f)) q') := by
  cases op with
  | add => exact .ok (h.plus h')
  | sub => exact .ok (h.minus h')
  | mul =>
    rw [combine, combine, hconst, hconst', h.constant, h'.constant]
    split_ifs
    · exact .ok (h'.scaled _)
    · exact .ok (h.scaled _)
    · exact .error _
  | div =>
    rw [combine, combine, hconst', h'.constant]
    split_ifs
    · exact .error _
    · exact .error _
    · exact .ok (h.scaled _)

/-- The form of a term mentions variables of the term. -/
lemma mem_vars_of_coeff_ne_zero {t : Term} {p : LinearForm} (h : ofTerm t = .ok p) {name : String}
    (hname : p.coefficients.coeff name ≠ 0) : name ∈ t.vars := by
  rw [Term.vars, BinaryTree.mem_names_iff]
  exact carries_of_coeff_ne_zero h hname

/-- **A term with new names has the form with new names**, or fails in the same way.

**Proof sketch.** Induction on the term. A failure of an operand is that of the node, and the forms
of the operands are constant or not as they were. -/
lemma formsAlike_ofTerm (hf : Set.InjOn f S) (t : Term) (ht : ∀ name ∈ t.vars, name ∈ S) :
    FormsAlike f (ofTerm t) (ofTerm (t.rename f)) := by
  induction t with
  | var name => exact .ok (.ofVariable f name)
  | lit value => exact .ok (.ofConstant f value)
  | node op left right ihl ihr =>
    have hl : ∀ name ∈ left.vars, name ∈ S := fun name hname =>
      ht name (Term.mem_vars_node.2 (Or.inl hname))
    have hr : ∀ name ∈ right.vars, name ∈ S := fun name hname =>
      ht name (Term.mem_vars_node.2 (Or.inr hname))
    have hleft := ihl hl
    have hright := ihr hr
    rw [Term.rename, ofTerm, ofTerm]
    generalize hp : ofTerm left = p, ofTerm (left.rename f) = q at hleft ⊢
    generalize hp' : ofTerm right = p', ofTerm (right.rename f) = q' at hright ⊢
    cases hleft with
    | error error => exact .error error
    | ok hleft =>
      cases hright with
      | error error => exact .error error
      | ok hright =>
        exact hleft.formsAlike_combine hright
          (hleft.isConstant_eq (fun name hname => hl name (mem_vars_of_coeff_ne_zero hp hname)) hf)
          (hright.isConstant_eq (fun name hname => hr name (mem_vars_of_coeff_ne_zero hp' hname))
            hf) op left right

end LinearForm

/-- **A constraint with new names has the form with new names**, or fails in the same way. -/
lemma Constraint.formsAlike_rename {f : String → String} {S : Set String} (hf : Set.InjOn f S)
    (c : Constraint) (hc : ∀ name ∈ c.vars, name ∈ S) : FormsAlike f c.form (c.rename f).form := by
  have hleft := LinearForm.formsAlike_ofTerm hf c.left fun name hname =>
    hc name (Std.ExtTreeSet.mem_union_iff.2 (Or.inl hname))
  have hright := LinearForm.formsAlike_ofTerm hf c.right fun name hname =>
    hc name (Std.ExtTreeSet.mem_union_iff.2 (Or.inr hname))
  rw [form, form, rename]
  generalize LinearForm.ofTerm c.left = p, LinearForm.ofTerm (c.left.rename f) = q at hleft ⊢
  generalize LinearForm.ofTerm c.right = p', LinearForm.ofTerm (c.right.rename f) = q' at hright ⊢
  cases hleft with
  | error error => exact .error error
  | ok hleft =>
    cases hright with
    | error error => exact .error error
    | ok hright => exact .ok (hleft.minus hright)

end ExactArith
