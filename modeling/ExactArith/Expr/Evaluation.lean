import ExactArith.Expr.Binding

set_option autoImplicit false
set_option relaxedAutoImplicit false

/-!
# Evaluation by substitution

The value of an expression under a binding: symbols stand for the values of their replacements.
Evaluation walks the tree from left to right and reports the first failure on its way. It keeps

* the *path*, the symbols whose replacements are being evaluated, to notice a replacement that
  leads back to its own symbol, and
* the *resolved* symbols with their values, so that each symbol is replaced once.

A binding has finitely many names and a path repeats none, so evaluation ends on every binding.

## Main definitions

* `ExactArith.Binding.evaluateFrom` — evaluation with a given path and resolved symbols.
* `ExactArith.Expr.evaluate` — evaluation from the start.
-/

namespace ExactArith

/-- Values of symbols that have been replaced. -/
abbrev Resolved : Type := Std.ExtTreeMap String Rat compare

namespace Binding

/-- The number of bound names that are not on a path. -/
def unvisited (b : Binding) (path : List String) : Nat :=
  (b.names.filter (· ∉ path)).length

/-- A longer path leaves fewer bound names. -/
theorem unvisited_cons_lt {b : Binding} {path : List String} {name : String} {replacement : Expr}
    (bound : b.get? name = some replacement) (fresh : name ∉ path) :
    b.unvisited (name :: path) < b.unvisited path := by
  have split : b.names.filter (· ∉ name :: path) =
      (b.names.filter (· ∉ path)).filter (· != name) := by
    rw [List.filter_filter]
    refine List.filter_congr fun other _ => ?_
    by_cases h : other = name <;> simp [h]
  unfold unvisited
  rw [split]
  refine List.length_filter_lt_length_iff_exists.2 ⟨name, ?_, by simp⟩
  exact List.mem_filter.2 ⟨mem_names_of_get? bound, by simpa using fresh⟩

/-- Evaluates an expression met after the symbols of `path`, with the values in `resolved` known
already; adds the values that it finds out. -/
def evaluateFrom (b : Binding) (path : List String) (resolved : Resolved) :
    Expr → Except ExprError (Rat × Resolved)
  | .constant value => .ok (value, resolved)
  | .symbol name =>
    match _ : b.get? name with
    | none => .error (.unboundSymbol name)
    | some replacement =>
      match resolved[name]? with
      | some value => .ok (value, resolved)
      | none =>
        if _ : name ∈ path then
          .error (.cyclicBinding name)
        else
          match evaluateFrom b (name :: path) resolved replacement with
          | .error error => .error error
          | .ok (value, resolved) => .ok (value, resolved.insert name value)
  | .node left op right =>
    match evaluateFrom b path resolved left with
    | .error error => .error error
    | .ok (x, resolved) =>
      match evaluateFrom b path resolved right with
      | .error error => .error error
      | .ok (y, resolved) =>
        match op.apply x y with
        | .error error => .error error
        | .ok value => .ok (value, resolved)
termination_by e => (b.unvisited path, e)
decreasing_by
  · exact Prod.Lex.left _ _ (unvisited_cons_lt ‹_› ‹_›)
  · exact Prod.Lex.right _ (by simp only [Expr.node.sizeOf_spec]; omega)
  · exact Prod.Lex.right _ (by simp only [Expr.node.sizeOf_spec]; omega)

end Binding

namespace Expr

/-- The value of an expression under a binding, or the first failure on the way to it. -/
def evaluate (e : Expr) (b : Binding) : Except ExprError Rat :=
  (b.evaluateFrom [] ∅ e).map Prod.fst

/-- The value of an expression under each of several bindings, in their order. -/
def evaluateAll (e : Expr) (bindings : List Binding) : List (Except ExprError Rat) :=
  bindings.map e.evaluate

end Expr

end ExactArith
