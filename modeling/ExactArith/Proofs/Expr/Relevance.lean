import ExactArith.Proofs.Expr.Reachability

set_option autoImplicit false
set_option relaxedAutoImplicit false

/-!
# The entries of a binding that matter

Evaluation looks at the entries of those names only that the expression leads to, and of an entry
that has a value it needs no more than the value. So another binding may take the place of the first
one if, for each of these names, it has the same entry or else the value of the entry as a constant.
The result stays the same, be it a value or a failure with the name that it carries.

## Main definitions

* `ExactArith.Binding.Simplifies` — another binding may take the place of the first one.

## Main results

* `ExactArith.Binding.Simplifies.evaluateOnPath_eq`, `ExactArith.Binding.Simplifies.evaluate_eq` —
  the result stays the same, on every path that leads to the expression and from the start.
* `ExactArith.Expr.evaluate_insert_value` — an entry may be replaced by its value.
* `ExactArith.Expr.evaluate_eq_of_reaches` — entries that the expression does not lead to do not
  matter, and for an expression without symbols no entry does.
-/

namespace ExactArith

namespace Binding

variable {b b' : Binding} {e l r : Expr} {op : Operator} {path : List String}

lemma Reaches.symbol (b : Binding) (name : String) : b.Reaches (.symbol name) name :=
  .of_mem_symbols (Expr.mem_symbols_symbol.2 rfl)

/-- What is reached from names that `root` leads to is reached from `root`. -/
lemma Reaches.of_symbols {root : Expr} {name : String} (h : b.Reaches e name)
    (hsymbols : ∀ start ∈ e.symbols, b.Reaches root start) : b.Reaches root name := by
  obtain ⟨start, hstart, hreach⟩ := h
  obtain ⟨first, hfirst, hreach'⟩ := hsymbols start hstart
  exact ⟨first, hfirst, hreach'.trans hreach⟩

/-- For each name that the expression leads to in the first binding, the second one has the same
entry, or the value of the name as a constant. -/
def Simplifies (b b' : Binding) (e : Expr) : Prop :=
  ∀ name, b.Reaches e name → b'.get? name = b.get? name ∨
    ∃ value, b.HasValue (.symbol name) value ∧ b'.get? name = some (.constant value)

namespace Simplifies

lemma of_symbols {root : Expr} (h : b.Simplifies b' root)
    (hsymbols : ∀ start ∈ e.symbols, b.Reaches root start) : b.Simplifies b' e :=
  fun name hname => h name (hname.of_symbols hsymbols)

lemma replacement {name : String} {replacement : Expr} (h : b.Simplifies b' (.symbol name))
    (hget : b.get? name = some replacement) : b.Simplifies b' replacement :=
  h.of_symbols fun _ hstart => (Reaches.symbol b name).replacement hget hstart

lemma left (h : b.Simplifies b' (.node l op r)) : b.Simplifies b' l :=
  h.of_symbols fun _ hstart => .of_mem_symbols (Expr.mem_symbols_node.2 (Or.inl hstart))

lemma right (h : b.Simplifies b' (.node l op r)) : b.Simplifies b' r :=
  h.of_symbols fun _ hstart => .of_mem_symbols (Expr.mem_symbols_node.2 (Or.inr hstart))

/-- A symbol that both evaluations may meet: its entries agree, or the second one is its value. -/
lemma symbol_cases {name : String} (h : b.Simplifies b' (.symbol name)) :
    b'.get? name = b.get? name ∨
      ∃ value, b.HasValue (.symbol name) value ∧ b'.get? name = some (.constant value) :=
  h name (.symbol b name)

end Simplifies

/-- **On a path that leads to the expression, the simpler binding gives the same result.**

**Proof sketch.** Induction along the evaluation. Where the entries agree, both evaluations go the
same way. A symbol whose entry was replaced by its value has this value without the replacement too:
it does not lead back to the path, so it is not on it, and evaluation on the path finds the
value. -/
lemma Simplifies.evaluateOnPath_eq (h : b.Simplifies b' e) (hpath : b.LeadsTo path e) :
    b'.evaluateOnPath path e = b.evaluateOnPath path e := by
  fun_induction evaluateOnPath b path e with
  | case1 path c => rw [evaluateOnPath]
  | case2 path name hnone =>
    rcases h.symbol_cases with heq | ⟨value, hv, -⟩
    · exact evaluateOnPath_unbound (heq.trans hnone) path
    · cases hv with
      | symbol hget _ => simp [hnone] at hget
  | case3 path name replacement hget hmem =>
    rcases h.symbol_cases with heq | ⟨value, hv, -⟩
    · exact evaluateOnPath_cyclic (heq.trans hget) hmem
    · -- a symbol with a value is not on a path that leads to it
      exact absurd .refl (hv.avoidsPath hpath name (Expr.mem_symbols_symbol.2 rfl) name hmem)
  | case4 path name replacement hget hmem ih =>
    rcases h.symbol_cases with heq | ⟨value, hv, hvalue⟩
    · rw [evaluateOnPath_replacement (heq.trans hget) hmem]
      exact ih (h.replacement hget) (hpath.replacement hget)
    · have hfound := hv.evaluateOnPath_eq path (hv.avoidsPath hpath)
      rw [evaluateOnPath_replacement hget hmem] at hfound
      rw [hfound, evaluateOnPath_replacement hvalue hmem, evaluateOnPath]
  | case5 path left op right error hl ihl =>
    rw [evaluateOnPath, ihl h.left hpath.left, hl]
  | case6 path left op right x hl error hr ihl ihr =>
    rw [evaluateOnPath, ihl h.left hpath.left, hl, ihr h.right hpath.right, hr]
  | case7 path left op right x hl y hr ihl ihr =>
    rw [evaluateOnPath, ihl h.left hpath.left, hl, ihr h.right hpath.right, hr]

/-- **The simpler binding gives the same result.** -/
lemma Simplifies.evaluate_eq (h : b.Simplifies b' e) : e.evaluate b' = e.evaluate b := by
  have hstart : b.LeadsTo [] e := fun _ hmem => absurd hmem List.not_mem_nil
  rw [Expr.evaluate, Expr.evaluate, (b'.agrees_start e).map_fst, (b.agrees_start e).map_fst]
  exact h.evaluateOnPath_eq hstart

end Binding

namespace Expr

/-- **An entry may be replaced by its value.** The result stays the same for every expression, be it
a value or a failure with the name that it carries, whatever the other entries are. -/
theorem evaluate_insert_value {b : Binding} {name : String} {value : ℚ} (e : Expr)
    (h : (symbol name).evaluate b = .ok value) :
    e.evaluate (b.insert name (constant value)) = e.evaluate b := by
  apply Binding.Simplifies.evaluate_eq
  intro other _
  rw [Binding.get?_insert]
  split_ifs with hname
  · subst hname
    exact Or.inr ⟨value, evaluate_eq_ok_iff.1 h, rfl⟩
  · exact Or.inl rfl

/-- With `x` replaced by `y` and `y` by `3`, the value `3` may stand for `x` in `x * z`, although
the product fails at the cycle of `z`. -/
theorem evaluate_insert_value_cycle :
    (symbol "x").evaluate (.ofList [("x", symbol "y"), ("y", constant 3), ("z", symbol "z")]) =
        .ok 3 ∧
      (node (symbol "x") .mul (symbol "z")).evaluate
          ((Binding.ofList [("x", symbol "y"), ("y", constant 3), ("z", symbol "z")]).insert "x"
            (constant 3)) =
        (node (symbol "x") .mul (symbol "z")).evaluate
          (.ofList [("x", symbol "y"), ("y", constant 3), ("z", symbol "z")]) ∧
      (node (symbol "x") .mul (symbol "z")).evaluate
          (.ofList [("x", symbol "y"), ("y", constant 3), ("z", symbol "z")]) =
        .error (.cyclicBinding "z") := by
  have hx : (Binding.ofList [("x", symbol "y"), ("y", constant 3), ("z", symbol "z")]).get? "x" =
      some (symbol "y") := by decide +kernel
  have hy : (Binding.ofList [("x", symbol "y"), ("y", constant 3), ("z", symbol "z")]).get? "y" =
      some (constant 3) := by decide +kernel
  have hz : (Binding.ofList [("x", symbol "y"), ("y", constant 3), ("z", symbol "z")]).get? "z" =
      some (symbol "z") := by decide +kernel
  have hvalue := evaluate_eq_ok_iff.2 (.symbol hx (.symbol hy (.constant 3)))
  refine ⟨hvalue, evaluate_insert_value _ hvalue, ?_⟩
  rw [evaluate, (Binding.agrees_start _ _).map_fst, Binding.evaluateOnPath,
    Binding.evaluateOnPath_replacement hx List.not_mem_nil,
    Binding.evaluateOnPath_replacement hy (mt List.mem_singleton.1 (by decide)),
    Binding.evaluateOnPath, Binding.evaluateOnPath_replacement hz List.not_mem_nil,
    Binding.evaluateOnPath_cyclic hz List.mem_cons_self]

lemma not_reaches_of_isGround {e : Expr} (h : e.isGround = true) (b : Binding) (name : String) :
    ¬b.Reaches e name := by
  rintro ⟨start, hstart, -⟩
  exact BinaryTree.isGround_iff.1 h start hstart

/-- The only failure of an expression without symbols is a division by zero. -/
lemma eq_divisionByZero_of_isGround {e : Expr} {b : Binding} {error : ExprError}
    (hground : e.isGround = true) (h : e.evaluate b = .error error) : error = .divisionByZero := by
  have hexplains := explains_of_evaluate_eq_error h
  cases error with
  | divisionByZero => rfl
  | unboundSymbol name => exact absurd hexplains.1 (not_reaches_of_isGround hground b name)
  | cyclicBinding name => exact absurd hexplains.1 (not_reaches_of_isGround hground b name)
  | unsupportedOperator text => exact hexplains.elim
  | invalidConstant text => exact hexplains.elim

/-- **Entries that the expression does not lead to do not matter**: two bindings give the same
result if they agree on every name that the expression leads to in the first one. So an expression
without symbols has one result under all bindings, a value or a division by zero.

**Proof sketch.** The second binding simplifies the first one, with all entries the same. -/
theorem evaluate_eq_of_reaches (e : Expr) :
    (∀ b₁ b₂ : Binding, (∀ name, b₁.Reaches e name → b₁.get? name = b₂.get? name) →
      e.evaluate b₁ = e.evaluate b₂) ∧
    (e.isGround = true → ∃ result, (∀ b, e.evaluate b = result) ∧
      (result = .error .divisionByZero ∨ ∃ value, result = .ok value)) := by
  have hagree : ∀ b₁ b₂ : Binding, (∀ name, b₁.Reaches e name → b₁.get? name = b₂.get? name) →
      e.evaluate b₁ = e.evaluate b₂ := by
    intro b₁ b₂ h
    have hsimplifies : b₁.Simplifies b₂ e := fun name hname => Or.inl (h name hname).symm
    exact hsimplifies.evaluate_eq.symm
  refine ⟨hagree, fun hground => ⟨e.evaluate ∅, fun b => ?_, ?_⟩⟩
  · exact hagree b ∅ fun name hname => absurd hname (not_reaches_of_isGround hground b name)
  · cases hresult : e.evaluate ∅ with
    | ok value => exact Or.inr ⟨value, rfl⟩
    | error error => exact Or.inl (by rw [eq_divisionByZero_of_isGround hground hresult])

/-- The symbol `x`, replaced by itself, leads to no other name, so the entry of `z` may be missing;
and `1 / 0` fails alike under all bindings. -/
theorem evaluate_eq_of_reaches_cycle :
    (∀ name, (Binding.ofList [("x", symbol "x"), ("z", constant 1)]).Reaches (symbol "x") name →
        (Binding.ofList [("x", symbol "x"), ("z", constant 1)]).get? name =
          (Binding.ofList [("x", symbol "x")]).get? name) ∧
      (symbol "x").evaluate (.ofList [("x", symbol "x"), ("z", constant 1)]) =
        (symbol "x").evaluate (.ofList [("x", symbol "x")]) ∧
      (node (constant 1) .div (constant 0)).isGround = true ∧
      ∀ b, (node (constant 1) .div (constant 0)).evaluate b = .error .divisionByZero := by
  have hx : (Binding.ofList [("x", symbol "x"), ("z", constant 1)]).get? "x" =
      some (symbol "x") := by decide +kernel
  have hagree : ∀ name,
      (Binding.ofList [("x", symbol "x"), ("z", constant 1)]).Reaches (symbol "x") name →
      (Binding.ofList [("x", symbol "x"), ("z", constant 1)]).get? name =
        (Binding.ofList [("x", symbol "x")]).get? name := by
    rintro name ⟨start, hstart, hreach⟩
    obtain rfl := mem_symbols_symbol.1 hstart
    have hname : name = "x" := by
      induction hreach with
      | refl => rfl
      | tail _ hstep ih =>
        obtain ⟨replacement, hget, hmem⟩ := hstep
        rw [ih, hx] at hget
        obtain rfl := Option.some.inj hget
        exact (mem_symbols_symbol.1 hmem).symm
    rw [hname]
    decide +kernel
  have hground : (node (constant 1) .div (constant 0)).isGround = true := by
    apply BinaryTree.isGround_iff.2
    intro name
    change name ∉ (node (constant 1) .div (constant 0)).symbols
    simp
  have hempty : (node (constant 1) .div (constant 0)).evaluate ∅ = .error .divisionByZero := by
    rw [evaluate, (Binding.agrees_start _ _).map_fst, Binding.evaluateOnPath,
      Binding.evaluateOnPath, Binding.evaluateOnPath]
    rfl
  obtain ⟨result, hresult, -⟩ := (evaluate_eq_of_reaches _).2 hground
  refine ⟨hagree, (evaluate_eq_of_reaches _).1 _ _ hagree, hground, fun b => ?_⟩
  rw [hresult b, ← hresult ∅, hempty]

end Expr

end ExactArith
