import ExactArith.Proofs.Linear.Canonical

set_option autoImplicit false
set_option relaxedAutoImplicit false

/-!
# Which terms are linear

A product is linear when one of its factors does not depend on the variables, and a quotient when
its divisor is a number other than zero. Whether an operand depends on the variables is a matter of
its values, while a form is asked whether it stores a coefficient. Since forms are canonical this is
the same question, so a term has a form exactly when each of its operations is linear, and a term
that has none fails at its first operation that is not.

## Main definitions

* `ExactArith.Term.DenotesConst`, `ExactArith.Term.IsConst` — a term has the same value everywhere.
* `ExactArith.Term.nodes` — the subterms, operands before their operation and left before right.
* `ExactArith.Term.IsLinearAt` — the operation at the root of a term is linear.
* `ExactArith.Term.Offends` — what is not linear about it, if it is not.
* `ExactArith.Term.FirstOffence` — what is not linear about the first such operation.

## Main results

* `ExactArith.LinearForm.isConstant_iff_isConst` — forms of constant terms store no coefficient.
* `ExactArith.LinearForm.combine_cases` — a node has a form exactly when its operation is linear.
* `ExactArith.LinearForm.ofTerm_cases` — so it is for all nodes of a term, one after the other.
* `ExactArith.LinearForm.ofTerm_eq_ok_iff_isLinearAt` — a term has a form exactly when all its
  operations are linear, and else fails at the first that is not.
-/

namespace ExactArith

/-! ## Linear operations -/

namespace Term

/-- A term has the value `c` at every assignment. -/
def DenotesConst (t : Term) (c : ℚ) : Prop := ∀ σ : String → ℚ, t.value σ = .ok c

/-- A term denotes a constant function of the variables. -/
def IsConst (t : Term) : Prop := ∃ c, t.DenotesConst c

/-- The subterms of a term, operands before their operation and left before right. -/
def nodes : Term → List Term
  | .var name => [.var name]
  | .lit value => [.lit value]
  | .node op left right => left.nodes ++ right.nodes ++ [.node op left right]

/-- The operation at the root of a term is linear: a product has a constant factor, and the divisor
of a quotient is a constant other than zero. -/
def IsLinearAt : Term → Prop
  | .node .mul left right => left.IsConst ∨ right.IsConst
  | .node .div _ divisor => ∃ c, c ≠ 0 ∧ divisor.DenotesConst c
  | _ => True

/-- What is not linear about the operation at the root of a term. -/
inductive Offends : Term → Unsupported → Prop
  /-- Both factors of a product depend on the variables. -/
  | product {left right : Term} (hleft : ¬left.IsConst) (hright : ¬right.IsConst) :
      Offends (.node .mul left right) (.nonlinearProduct (.node .mul left right))
  /-- A divisor depends on the variables. -/
  | divisor {left divisor : Term} (h : ¬divisor.IsConst) :
      Offends (.node .div left divisor) (.nonConstantDivisor divisor)
  /-- A divisor is zero. -/
  | zero {left divisor : Term} (h : divisor.DenotesConst 0) :
      Offends (.node .div left divisor) (.zeroDivisor (.node .div left divisor))

/-- A term has one value at an assignment. -/
lemma DenotesConst.unique {t : Term} {c d : ℚ} (hc : t.DenotesConst c) (hd : t.DenotesConst d) :
    c = d :=
  Except.ok.inj ((hc 0).symm.trans (hd 0))

/-- An operation about which something is not linear is not linear. -/
lemma Offends.not_isLinearAt {t : Term} {what : Unsupported} (h : t.Offends what) :
    ¬t.IsLinearAt := by
  cases h with
  | product hleft hright => exact fun h => h.elim hleft hright
  | divisor hdivisor => exact fun ⟨c, _, hc⟩ => hdivisor ⟨c, hc⟩
  | zero hzero => exact fun ⟨c, hne, hc⟩ => hne (hc.unique hzero)

/-- At most one thing is not linear about an operation. -/
lemma Offends.unique {t : Term} {what other : Unsupported} (h : t.Offends what)
    (h' : t.Offends other) : what = other := by
  cases h with
  | product => cases h'; rfl
  | divisor hdivisor =>
    cases h' with
    | divisor => rfl
    | zero hzero => exact absurd ⟨0, hzero⟩ hdivisor
  | zero hzero =>
    cases h' with
    | divisor hdivisor => exact absurd ⟨0, hzero⟩ hdivisor
    | zero => rfl

/-- What is not linear about the first operation of a term that is not linear. -/
def FirstOffence (t : Term) (what : Unsupported) : Prop :=
  ∃ before node after, t.nodes = before ++ node :: after ∧ (∀ m ∈ before, m.IsLinearAt) ∧
    node.Offends what

/-- If all operations are linear, none is the first that is not. -/
lemma not_firstOffence_of_forall {t : Term} (h : ∀ m ∈ t.nodes, m.IsLinearAt)
    (what : Unsupported) : ¬t.FirstOffence what := by
  rintro ⟨before, node, after, hnodes, -, hnode⟩
  refine hnode.not_isLinearAt (h node ?_)
  rw [hnodes]
  simp

/-- There is one first operation that is not linear.

**Proof sketch.** Of two positions, the operation at the earlier one is not linear, so it does not
lie before the other one. -/
lemma FirstOffence.unique {t : Term} {what other : Unsupported} (h : t.FirstOffence what)
    (h' : t.FirstOffence other) : what = other := by
  obtain ⟨before, node, after, hnodes, hbefore, hnode⟩ := h
  obtain ⟨before', node', after', hnodes', hbefore', hnode'⟩ := h'
  rw [hnodes] at hnodes'
  rcases List.append_eq_append_iff.1 hnodes' with ⟨mid, rfl, hmid⟩ | ⟨mid, rfl, hmid⟩
  · cases mid with
    | nil =>
      obtain rfl : node = node' := (List.cons.inj hmid).1
      exact hnode.unique hnode'
    | cons first rest =>
      obtain rfl : node = first := (List.cons.inj hmid).1
      exact absurd (hbefore' node (by simp)) hnode.not_isLinearAt
  · cases mid with
    | nil =>
      obtain rfl : node' = node := (List.cons.inj hmid).1
      exact hnode.unique hnode'
    | cons first rest =>
      obtain rfl : node' = first := (List.cons.inj hmid).1
      exact absurd (hbefore node' (by simp)) hnode'.not_isLinearAt

end Term

/-! ## Forms -/

namespace LinearForm

section Constant

variable {t : Term} {f : LinearForm} (h : ofTerm t = .ok f)

include h in
/-- A term denotes the constant part of its form if the form stores no coefficient. -/
lemma denotesConst_of_isConstant (hf : f.isConstant = true) : t.DenotesConst f.constant :=
  fun σ => by rw [value_ofTerm h, value_of_isConstant hf]

include h in
/-- **Forms of constant terms store no coefficient**: a form is canonical, so it does not keep a
variable on which its value does not depend. -/
lemma isConstant_iff_isConst : f.isConstant = true ↔ t.IsConst := by
  rw [(isReduced_ofTerm h).isConstant_iff]
  refine exists_congr fun c => forall_congr' fun σ => ?_
  rw [value_ofTerm h, Except.ok.injEq]

end Constant

/-- **A node whose operands have forms has a form exactly when its operation is linear**, and else
it fails for what is not linear about it.

**Proof sketch.** One case for each operator. Sums and differences always have a form, and for the
others the form is made after the same questions, asked of the forms of the operands. -/
lemma combine_cases {op : Operator} {left right : Term} {f g : LinearForm}
    (hf : ofTerm left = .ok f) (hg : ofTerm right = .ok g) :
    (∃ k, f.combine (.node op left right) g = .ok k ∧ (Term.node op left right).IsLinearAt) ∨
      ∃ what, f.combine (.node op left right) g = .error (.unsupported what) ∧
        (Term.node op left right).Offends what := by
  have hleft := isConstant_iff_isConst hf
  have hright := isConstant_iff_isConst hg
  cases op with
  | add => exact Or.inl ⟨f.plus g, rfl, trivial⟩
  | sub => exact Or.inl ⟨f.minus g, rfl, trivial⟩
  | mul =>
    rw [combine]
    split_ifs with hl hr
    · exact Or.inl ⟨_, rfl, Or.inl (hleft.1 hl)⟩
    · exact Or.inl ⟨_, rfl, Or.inr (hright.1 hr)⟩
    · exact Or.inr ⟨_, rfl, .product (mt hleft.2 hl) (mt hright.2 hr)⟩
  | div =>
    rw [combine]
    by_cases hr : g.isConstant = true
    · have hconst := denotesConst_of_isConstant hg hr
      rw [hr, Bool.not_true, if_neg Bool.false_ne_true]
      split_ifs with hz
      · exact Or.inr ⟨_, rfl, .zero (hz ▸ hconst)⟩
      · exact Or.inl ⟨_, rfl, g.constant, hz, hconst⟩
    · rw [Bool.not_eq_true] at hr
      have hnot : ¬right.IsConst := by rw [← hright, hr]; exact Bool.false_ne_true
      rw [hr, Bool.not_false, if_pos rfl]
      exact Or.inr ⟨_, rfl, .divisor hnot⟩

/-- **A term has a form if all its operations are linear, and else fails at the first that is not.**

**Proof sketch.** Induction on the term. The nodes of the left operand come first, then those of the
right one, and the root is last, which is the order in which the form is made. -/
lemma ofTerm_cases (t : Term) :
    (∃ f, ofTerm t = .ok f ∧ ∀ m ∈ t.nodes, m.IsLinearAt) ∨
      ∃ what, ofTerm t = .error (.unsupported what) ∧ t.FirstOffence what := by
  induction t with
  | var name => exact Or.inl ⟨_, rfl, by simp [Term.nodes, Term.IsLinearAt]⟩
  | lit c => exact Or.inl ⟨_, rfl, by simp [Term.nodes, Term.IsLinearAt]⟩
  | node op left right ihl ihr =>
    rw [ofTerm]
    rcases ihl with ⟨f, hf, hleft⟩ | ⟨what, hf, before, node, after, hnodes, hbefore, hnode⟩
    · rcases ihr with ⟨g, hg, hright⟩ | ⟨what, hg, before, node, after, hnodes, hbefore, hnode⟩
      · rw [hf, hg]
        have hoperands : ∀ m ∈ left.nodes ++ right.nodes, m.IsLinearAt := fun m hm =>
          (List.mem_append.1 hm).elim (hleft m) (hright m)
        rcases @combine_cases op left right f g hf hg with ⟨k, hk, hroot⟩ | ⟨what, hk, hroot⟩
        · refine Or.inl ⟨k, hk, fun m hm => ?_⟩
          rcases List.mem_append.1 hm with hm | hm
          · exact hoperands m hm
          · exact List.mem_singleton.1 hm ▸ hroot
        · exact Or.inr ⟨what, hk, _, _, [], rfl, hoperands, hroot⟩
      · -- the nodes of the left operand are linear and come before those of the right one
        rw [hf, hg]
        refine Or.inr ⟨what, rfl, left.nodes ++ before, node, after ++ [.node op left right], ?_,
          fun m hm => (List.mem_append.1 hm).elim (hleft m) (hbefore m), hnode⟩
        rw [Term.nodes, hnodes]
        simp
    · rw [hf]
      refine Or.inr ⟨what, rfl, before, node, after ++ right.nodes ++ [.node op left right], ?_,
        hbefore, hnode⟩
      rw [Term.nodes, hnodes]
      simp

/-- A term without a form is not supported; it never fails for another reason. -/
lemma eq_unsupported_of_ofTerm_eq_error {t : Term} {error : SolverError}
    (h : ofTerm t = .error error) : ∃ what, error = .unsupported what := by
  rcases ofTerm_cases t with ⟨f, hf, -⟩ | ⟨what, hf, -⟩
  · rw [hf] at h
    cases h
  · exact ⟨what, Except.error.inj (h.symm.trans hf)⟩

/-- **A term has a form exactly when all its operations are linear**: every product has a factor
that denotes a constant, and every divisor denotes a constant other than zero. The form has the
value of the term at every assignment. A term without a form is not supported, for what is not
linear about the first of its operations that is not, operands before their operation and left
before right; it never fails for another reason.

**Proof sketch.** One of the two cases of `ofTerm_cases` holds, and each excludes the other. -/
theorem ofTerm_eq_ok_iff_isLinearAt (t : Term) :
    ((∃ f, ofTerm t = .ok f) ↔ ∀ m ∈ t.nodes, m.IsLinearAt) ∧
      (∀ f, ofTerm t = .ok f → ∀ σ, t.value σ = .ok (f.value σ)) ∧
      (∀ error, ofTerm t = .error error ↔
        ∃ what, error = .unsupported what ∧ t.FirstOffence what) ∧
      (∀ leaf, ofTerm t ≠ .error (.leafOperation leaf)) ∧
      ∀ reason, ofTerm t ≠ .error (.backend reason) := by
  refine ⟨?_, fun f hf σ => value_ofTerm hf σ, fun error => ?_, fun leaf hleaf => ?_,
    fun reason hreason => ?_⟩
  · rcases ofTerm_cases t with ⟨f, hf, hlinear⟩ | ⟨what, hf, hfirst⟩
    · exact iff_of_true ⟨f, hf⟩ hlinear
    · refine iff_of_false (by simp [hf]) fun hlinear => ?_
      exact Term.not_firstOffence_of_forall hlinear what hfirst
  · rcases ofTerm_cases t with ⟨f, hf, hlinear⟩ | ⟨what, hf, hfirst⟩
    · refine iff_of_false (by simp [hf]) ?_
      rintro ⟨other, -, hother⟩
      exact Term.not_firstOffence_of_forall hlinear other hother
    · rw [hf, Except.error.injEq]
      refine ⟨fun h => ⟨what, h.symm, hfirst⟩, ?_⟩
      rintro ⟨other, rfl, hother⟩
      rw [hfirst.unique hother]
  · obtain ⟨what, hwhat⟩ := eq_unsupported_of_ofTerm_eq_error hleaf
    cases hwhat
  · obtain ⟨what, hwhat⟩ := eq_unsupported_of_ofTerm_eq_error hreason
    cases hwhat

/-- In `(x - x) * y / (x * y + 1 / 0)` the first product is linear, and `x * y` is the first
operation that is not. -/
example : ofTerm (.node .div (.node .mul (.node .sub (.var "x") (.var "x")) (.var "y"))
    (.node .add (.node .mul (.var "x") (.var "y")) (.node .div (.lit 1) (.lit 0)))) =
    .error (.unsupported (.nonlinearProduct (.node .mul (.var "x") (.var "y")))) := by
  cbv

end LinearForm

end ExactArith
