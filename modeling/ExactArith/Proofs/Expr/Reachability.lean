import ExactArith.Proofs.Expr.Evaluation

set_option autoImplicit false
set_option relaxedAutoImplicit false

/-!
# When evaluation succeeds

Evaluation visits an expression, the replacements of its symbols, those of the symbols in these, and
so on: no operand is passed over, not even beside a factor of zero. So an expression has a value
just when every name that it leads to is bound and lies on no cycle, and no divisor on the way is
zero. A failure names a reason that is there.

## Main definitions

* `ExactArith.Binding.Reaches` — an expression leads to a name.
* `ExactArith.Expr.divisors`, `ExactArith.Binding.DividesBy` — the divisors in an expression, and
  those that it leads to.
* `ExactArith.Binding.Supports` — nothing stands in the way of a value.
* `ExactArith.Binding.Explains` — what a failure says about the expression and the binding.

## Main results

* `ExactArith.Binding.HasValue.supports` — what has a value is supported.
* `ExactArith.Binding.explains_of_evaluateOnPath` — the failures on any path are explained.
* `ExactArith.Expr.exists_evaluate_eq_ok_iff` — evaluation succeeds exactly on what is supported.
-/

namespace ExactArith

/-- The only failure of an operator is a division by zero. -/
lemma Operator.apply_eq_error {op : Operator} {x y : ℚ} {error : ExprError}
    (h : op.apply x y = .error error) : op = .div ∧ y = 0 ∧ error = .divisionByZero := by
  cases op with
  | add => simp [apply] at h
  | sub => simp [apply] at h
  | mul => simp [apply] at h
  | div =>
    unfold apply at h
    split_ifs at h with hy
    exact ⟨rfl, hy, (Except.error.inj h).symm⟩

/-- A quotient has a value only if its divisor is not zero. -/
lemma Operator.ne_zero_of_apply_div {x y value : ℚ} (h : Operator.div.apply x y = .ok value) :
    y ≠ 0 := by
  rintro rfl
  simp [apply] at h

/-- The divisors of the divisions in an expression. -/
def Expr.divisors : Expr → List Expr
  | .symbol _ | .constant _ => []
  | .node left op right => (if op = .div then [right] else []) ++ left.divisors ++ right.divisors

lemma Expr.mem_divisors_node {d left right : Expr} {op : Operator} :
    d ∈ (Expr.node left op right).divisors ↔
      op = .div ∧ d = right ∨ d ∈ left.divisors ∨ d ∈ right.divisors := by
  rw [divisors, List.mem_append, List.mem_append, or_assoc]
  split_ifs with h <;> simp [h]

namespace Binding

variable {b : Binding} {e : Expr} {value : ℚ}

/-! ## What an expression leads to -/

/-- Some symbol of an expression is a name or depends on it, in any number of steps. -/
def Reaches (b : Binding) (e : Expr) (name : String) : Prop :=
  ∃ start ∈ e.symbols, Relation.ReflTransGen b.DependsOn start name

lemma Reaches.of_mem_symbols {name : String} (h : name ∈ e.symbols) : b.Reaches e name :=
  ⟨name, h, .refl⟩

/-- What leads to a symbol leads to the symbols of its replacement. -/
lemma Reaches.replacement {name other : String} {replacement : Expr} (h : b.Reaches e name)
    (hget : b.get? name = some replacement) (hother : other ∈ replacement.symbols) :
    b.Reaches e other := by
  obtain ⟨start, hstart, hreach⟩ := h
  exact ⟨start, hstart, hreach.tail ⟨replacement, hget, hother⟩⟩

/-- An expression, or the replacement of a name that it leads to, divides by `d`. -/
def DividesBy (b : Binding) (e d : Expr) : Prop :=
  d ∈ e.divisors ∨
    ∃ name replacement, b.Reaches e name ∧ b.get? name = some replacement ∧ d ∈ replacement.divisors

/-- Nothing stands in the way of a value of an expression. -/
structure Supports (b : Binding) (e : Expr) : Prop where
  /-- Each name that the expression leads to has a replacement. -/
  bound : ∀ name, b.Reaches e name → (b.get? name).isSome = true
  /-- Each of these names does not depend on itself. -/
  acyclic : ∀ name, b.Reaches e name → ¬Relation.TransGen b.DependsOn name name
  /-- No divisor is zero. -/
  divisible : ∀ d, b.DividesBy e d → ¬b.HasValue d 0

/-! ## What has a value is supported -/

namespace HasValue

/-- An expression has at most one value. -/
lemma unique {x y : ℚ} (hx : b.HasValue e x) (hy : b.HasValue e y) : x = y := by
  have hx := Expr.evaluate_eq_ok_iff.2 hx
  have hy := Expr.evaluate_eq_ok_iff.2 hy
  exact Except.ok.inj (hx.symm.trans hy)

lemma of_mem_symbols (h : b.HasValue e value) {name : String} (hname : name ∈ e.symbols) :
    ∃ x, b.HasValue (.symbol name) x := by
  induction h with
  | constant value => exact absurd hname Expr.not_mem_symbols_constant
  | symbol hget hv _ =>
    obtain rfl := Expr.mem_symbols_symbol.1 hname
    exact ⟨_, .symbol hget hv⟩
  | node _ _ _ ihl ihr => exact (Expr.mem_symbols_node.1 hname).elim ihl ihr

/-- The replacement of a symbol with a value has a value. -/
lemma replacement {name : String} {replacement : Expr} (h : b.HasValue (.symbol name) value)
    (hget : b.get? name = some replacement) : b.HasValue replacement value := by
  cases h with
  | symbol hget' hv =>
    obtain rfl := Option.some.inj (hget.symm.trans hget')
    exact hv

/-- Each name that an expression with a value leads to has a value. -/
lemma of_reaches (h : b.HasValue e value) {name : String} (hname : b.Reaches e name) :
    ∃ x, b.HasValue (.symbol name) x := by
  obtain ⟨start, hstart, hreach⟩ := hname
  induction hreach with
  | refl => exact h.of_mem_symbols hstart
  | tail _ hstep ih =>
    obtain ⟨x, hx⟩ := ih
    obtain ⟨replacement, hget, hmem⟩ := hstep
    exact (hx.replacement hget).of_mem_symbols hmem

lemma of_mem_divisors (h : b.HasValue e value) {d : Expr} (hd : d ∈ e.divisors) :
    ∃ x, b.HasValue d x ∧ x ≠ 0 := by
  induction h with
  | constant value => exact absurd hd List.not_mem_nil
  | symbol _ _ _ => exact absurd hd List.not_mem_nil
  | node hl hr happly ihl ihr =>
    rcases Expr.mem_divisors_node.1 hd with ⟨rfl, rfl⟩ | hd | hd
    · exact ⟨_, hr, Operator.ne_zero_of_apply_div happly⟩
    · exact ihl hd
    · exact ihr hd

/-- Each divisor that an expression with a value leads to has a value other than zero. -/
lemma of_dividesBy (h : b.HasValue e value) {d : Expr} (hd : b.DividesBy e d) :
    ∃ x, b.HasValue d x ∧ x ≠ 0 := by
  rcases hd with hd | ⟨name, replacement, hreach, hget, hd⟩
  · exact h.of_mem_divisors hd
  · obtain ⟨x, hx⟩ := h.of_reaches hreach
    exact (hx.replacement hget).of_mem_divisors hd

/-- **What has a value is supported.** -/
lemma supports (h : b.HasValue e value) : b.Supports e where
  bound name hname := by
    obtain ⟨x, hx⟩ := h.of_reaches hname
    cases hx with
    | symbol hget _ => exact Option.isSome_iff_exists.2 ⟨_, hget⟩
  acyclic name hname := by
    obtain ⟨x, hx⟩ := h.of_reaches hname
    exact hx.not_transGen_self
  divisible d hd hzero := by
    obtain ⟨x, hx, hne⟩ := h.of_dividesBy hd
    exact hne (hx.unique hzero)

end HasValue

/-! ## Failures -/

/-- What a failure to evaluate an expression says. Two causes belong to the reading of expressions
and never occur. -/
def Explains (b : Binding) (e : Expr) : ExprError → Prop
  | .unboundSymbol name => b.Reaches e name ∧ b.get? name = none
  | .cyclicBinding name => b.Reaches e name ∧ Relation.TransGen b.DependsOn name name
  | .divisionByZero => ∃ d, b.DividesBy e d ∧ d.evaluate b = .ok 0
  | .unsupportedOperator _ | .invalidConstant _ => False

/-- What is supported has no failure that explains itself. -/
lemma Supports.not_explains (h : b.Supports e) (error : ExprError) : ¬b.Explains e error := by
  intro hexplains
  cases error with
  | unboundSymbol name =>
    obtain ⟨hreach, hnone⟩ := hexplains
    have hbound := h.bound name hreach
    simp [hnone] at hbound
  | cyclicBinding name => exact h.acyclic name hexplains.1 hexplains.2
  | divisionByZero =>
    obtain ⟨d, hd, hzero⟩ := hexplains
    exact h.divisible d hd (Expr.evaluate_eq_ok_iff.1 hzero)
  | unsupportedOperator text => exact hexplains
  | invalidConstant text => exact hexplains

/-- A value that is found on a path is the value by substitution. -/
lemma hasValue_of_evaluateOnPath {path : List String} (h : b.evaluateOnPath path e = .ok value) :
    b.HasValue e value := by
  fun_induction evaluateOnPath b path e generalizing value with
  | case1 path c =>
    obtain rfl := Except.ok.inj h
    exact .constant c
  | case2 path name hnone => simp at h
  | case3 path name replacement hget hmem => simp at h
  | case4 path name replacement hget hmem ih => exact .symbol hget (ih h)
  | case5 path left op right error hl ihl => simp at h
  | case6 path left op right x hl error hr ihl ihr => simp at h
  | case7 path left op right x hl y hr ihl ihr => exact .node (ihl hl) (ihr hr) h

/-- **The failures on any path are explained**, for an expression that `root` leads to.

**Proof sketch.** Induction along the evaluation. A symbol of the path leads to every symbol that is
evaluated after it, so meeting it again closes a cycle; and what a replacement contains, `root`
leads to since it leads to the symbol. -/
lemma explains_of_evaluateOnPath {root : Expr} {path : List String} {error : ExprError}
    (h : b.evaluateOnPath path e = .error error) (hpath : b.LeadsTo path e)
    (hsymbols : ∀ name ∈ e.symbols, b.Reaches root name)
    (hdivisors : ∀ d ∈ e.divisors, b.DividesBy root d) : b.Explains root error := by
  fun_induction evaluateOnPath b path e with
  | case1 path c => simp at h
  | case2 path name hnone =>
    obtain rfl := Except.error.inj h
    exact ⟨hsymbols name (Expr.mem_symbols_symbol.2 rfl), hnone⟩
  | case3 path name replacement hget hmem =>
    obtain rfl := Except.error.inj h
    have hself := Expr.mem_symbols_symbol.2 (rfl : name = name)
    exact ⟨hsymbols name hself, hpath name hmem name hself⟩
  | case4 path name replacement hget hmem ih =>
    have hname := hsymbols name (Expr.mem_symbols_symbol.2 rfl)
    have hnext : ∀ other ∈ replacement.symbols, b.Reaches root other :=
      fun other hother => hname.replacement hget hother
    exact ih h (hpath.replacement hget) hnext
      fun d hd => Or.inr ⟨name, replacement, hname, hget, hd⟩
  | case5 path left op right error' hl ihl =>
    obtain rfl := Except.error.inj h
    exact ihl hl hpath.left (fun name hname => hsymbols name (Expr.mem_symbols_node.2 (.inl hname)))
      fun d hd => hdivisors d (Expr.mem_divisors_node.2 (.inr (.inl hd)))
  | case6 path left op right x hl error' hr ihl ihr =>
    obtain rfl := Except.error.inj h
    exact ihr hr hpath.right
      (fun name hname => hsymbols name (Expr.mem_symbols_node.2 (.inr hname)))
      fun d hd => hdivisors d (Expr.mem_divisors_node.2 (.inr (.inr hd)))
  | case7 path left op right x hl y hr ihl ihr =>
    -- both operands have values, so the operator itself fails
    obtain ⟨rfl, rfl, rfl⟩ := Operator.apply_eq_error h
    have hzero := Expr.evaluate_eq_ok_iff.2 (hasValue_of_evaluateOnPath hr)
    exact ⟨right, hdivisors right (Expr.mem_divisors_node.2 (.inl ⟨rfl, rfl⟩)), hzero⟩

end Binding

namespace Expr

/-- **Every failure of evaluation is explained.** -/
lemma explains_of_evaluate_eq_error {e : Expr} {b : Binding} {error : ExprError}
    (h : e.evaluate b = .error error) : b.Explains e error := by
  rw [evaluate, (b.agrees_start e).map_fst] at h
  have hstart : b.LeadsTo [] e := fun _ h => absurd h List.not_mem_nil
  exact Binding.explains_of_evaluateOnPath h hstart (fun _ => .of_mem_symbols) fun _ => Or.inl

/-- **Evaluation succeeds exactly on what is supported**: every name that the expression leads to is
bound and on no cycle, and no divisor on the way is zero. The value is then the one by substitution,
and otherwise the failure names a reason that is there.

**Proof sketch.** What has a value is supported. Conversely, evaluation gives a value or a failure,
and a failure is explained, which support excludes. -/
theorem exists_evaluate_eq_ok_iff (e : Expr) (b : Binding) :
    ((∃ value, e.evaluate b = .ok value) ↔ b.Supports e) ∧
      (∀ value, e.evaluate b = .ok value ↔ b.HasValue e value) ∧
      ∀ error, e.evaluate b = .error error → b.Explains e error := by
  refine ⟨⟨?_, fun hsupports => ?_⟩, fun value => evaluate_eq_ok_iff,
    fun error => explains_of_evaluate_eq_error⟩
  · rintro ⟨value, hvalue⟩
    exact (evaluate_eq_ok_iff.1 hvalue).supports
  · cases hresult : e.evaluate b with
    | ok value => exact ⟨value, rfl⟩
    | error error =>
      exact absurd (explains_of_evaluate_eq_error hresult) (hsupports.not_explains error)

/-- A product with zero still visits its other factor: with `x` replaced by `y` and `y` by `x`, the
product `0 * x` fails, and `x` does lie on a cycle. -/
theorem exists_evaluate_eq_ok_iff_cycle :
    (node (constant 0) .mul (symbol "x")).evaluate
        (Binding.ofList [("x", symbol "y"), ("y", symbol "x")]) = .error (.cyclicBinding "x") ∧
      (Binding.ofList [("x", symbol "y"), ("y", symbol "x")]).Explains
        (node (constant 0) .mul (symbol "x")) (.cyclicBinding "x") := by
  have herror : (node (constant 0) .mul (symbol "x")).evaluate
      (Binding.ofList [("x", symbol "y"), ("y", symbol "x")]) = .error (.cyclicBinding "x") := by
    have hx : (Binding.ofList [("x", symbol "y"), ("y", symbol "x")]).get? "x" =
        some (symbol "y") := by decide +kernel
    have hy : (Binding.ofList [("x", symbol "y"), ("y", symbol "x")]).get? "y" =
        some (symbol "x") := by decide +kernel
    rw [evaluate, (Binding.agrees_start _ _).map_fst, Binding.evaluateOnPath,
      Binding.evaluateOnPath, Binding.evaluateOnPath_replacement hx List.not_mem_nil,
      Binding.evaluateOnPath_replacement hy (mt List.mem_singleton.1 (by decide)),
      Binding.evaluateOnPath_cyclic hx (List.mem_cons_of_mem _ List.mem_cons_self)]
  exact ⟨herror, (exists_evaluate_eq_ok_iff _ _).2.2 _ herror⟩

end Expr

end ExactArith
