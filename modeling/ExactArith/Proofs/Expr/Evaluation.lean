import ExactArith.Expr.Evaluation
import ExactArith.Proofs.SortedMap
import ExactArith.Proofs.Tree.Worklist
import Mathlib.Logic.Relation

set_option autoImplicit false
set_option relaxedAutoImplicit false

/-!
# Remembered values do not change the result

Evaluation looks a symbol up among the resolved ones before it checks the path, so a remembered
value could hide a cycle. It never does: a symbol with a value depends on no cycle, while each
symbol of the path leads to whatever is evaluated, so no symbol that has a value leads back to the
path.

## Main definitions

* `ExactArith.Binding.evaluateOnPath` — evaluation that keeps the path only.
* `ExactArith.Binding.HasValue` — the values of expressions, by substitution.
* `ExactArith.Binding.DependsOn` — the replacement of a symbol mentions another.

## Main results

* `ExactArith.Binding.HasValue.not_transGen_self` — a symbol with a value is on no cycle.
* `ExactArith.Binding.agrees_evaluateFrom` — the result with remembered values is that
  without them.
* `ExactArith.Expr.evaluate_eq_evaluateOnPath` — from the start, this holds for every expression and
  binding.
* `ExactArith.Expr.evaluate_eq_ok_iff` — the values that evaluation finds are those by substitution.
* `ExactArith.Binding.HasValue.of_toTerm` — the value of a term at the values of its symbols is that
  of the expression by substitution.
-/

namespace ExactArith

namespace Binding

/-- Evaluates an expression met after the symbols of `path`, keeping no values. -/
def evaluateOnPath (b : Binding) (path : List String) : Expr → Except ExprError ℚ
  | .constant value => .ok value
  | .symbol name =>
    match _ : b.get? name with
    | none => .error (.unboundSymbol name)
    | some replacement =>
      if _ : name ∈ path then .error (.cyclicBinding name)
      else evaluateOnPath b (name :: path) replacement
  | .node left op right =>
    match evaluateOnPath b path left with
    | .error error => .error error
    | .ok x =>
      match evaluateOnPath b path right with
      | .error error => .error error
      | .ok y => op.apply x y
termination_by e => (b.unvisited path, e)
decreasing_by
  · exact Prod.Lex.left _ _ (unvisited_cons_lt ‹_› ‹_›)
  · exact Prod.Lex.right _ (by simp only [Expr.node.sizeOf_spec]; omega)
  · exact Prod.Lex.right _ (by simp only [Expr.node.sizeOf_spec]; omega)

lemma evaluateOnPath_unbound {b : Binding} {name : String} (h : b.get? name = none)
    (path : List String) :
    b.evaluateOnPath path (.symbol name) = .error (.unboundSymbol name) := by
  rw [evaluateOnPath]
  split
  · rfl
  · next r hr => simp [h] at hr

lemma evaluateOnPath_cyclic {b : Binding} {name : String} {replacement : Expr} {path : List String}
    (h : b.get? name = some replacement) (hmem : name ∈ path) :
    b.evaluateOnPath path (.symbol name) = .error (.cyclicBinding name) := by
  rw [evaluateOnPath]
  split
  · next hnone => simp [h] at hnone
  · rw [dif_pos hmem]

lemma evaluateOnPath_replacement {b : Binding} {name : String} {replacement : Expr}
    {path : List String} (h : b.get? name = some replacement) (hmem : name ∉ path) :
    b.evaluateOnPath path (.symbol name) = b.evaluateOnPath (name :: path) replacement := by
  rw [evaluateOnPath]
  split
  · next hnone => simp [h] at hnone
  · next r hr =>
    obtain rfl := Option.some.inj (h.symm.trans hr)
    rw [dif_neg hmem]

/-! ## Values -/

/-- The value of an expression, where each symbol has the value of its replacement. -/
inductive HasValue (b : Binding) : Expr → ℚ → Prop
  | constant (value : ℚ) : HasValue b (.constant value) value
  | symbol {name : String} {replacement : Expr} {value : ℚ} (h : b.get? name = some replacement)
      (hv : HasValue b replacement value) : HasValue b (.symbol name) value
  | node {left right : Expr} {op : Operator} {x y value : ℚ} (hl : HasValue b left x)
      (hr : HasValue b right y) (h : op.apply x y = .ok value) :
      HasValue b (.node left op right) value

/-- The replacement of a symbol mentions another symbol. -/
def DependsOn (b : Binding) (name other : String) : Prop :=
  ∃ replacement, b.get? name = some replacement ∧ other ∈ replacement.symbols

/-- The symbols of an expression with a value depend on finitely many layers of others. -/
lemma HasValue.acc {b : Binding} {e : Expr} {value : ℚ} (h : b.HasValue e value) :
    ∀ name ∈ e.symbols, Acc (fun other name => b.DependsOn name other) name := by
  induction h with
  | constant value =>
    intro name hname
    exact absurd hname Expr.not_mem_symbols_constant
  | symbol hget _ ih =>
    intro name hname
    obtain rfl := Expr.mem_symbols_symbol.1 hname
    refine Acc.intro _ fun other hother => ?_
    obtain ⟨replacement, hget', hmem⟩ := hother
    obtain rfl := Option.some.inj (hget.symm.trans hget')
    exact ih other hmem
  | node _ _ _ ihl ihr =>
    intro name hname
    exact (Expr.mem_symbols_node.1 hname).elim (ihl name) (ihr name)

/-- **A symbol with a value is on no cycle.** -/
lemma HasValue.not_transGen_self {b : Binding} {name : String} {value : ℚ}
    (h : b.HasValue (.symbol name) value) : ¬Relation.TransGen b.DependsOn name name := by
  have hacc := (h.acc name (Expr.mem_symbols_symbol.2 rfl)).transGen
  clear h
  induction hacc with
  | intro name _ ih =>
    intro hcycle
    exact ih name (Relation.transGen_swap.2 hcycle) hcycle

/-! ## Paths -/

/-- No symbol of an expression leads to a symbol of the path. -/
def AvoidsPath (b : Binding) (path : List String) (e : Expr) : Prop :=
  ∀ name ∈ e.symbols, ∀ other ∈ path, ¬Relation.ReflTransGen b.DependsOn name other

/-- **An expression with a value has it on every path that it does not lead back to.**

**Proof sketch.** Induction on how the value arises. A symbol is not on the path, and its
replacement does not lead back to the longer path: not to the old symbols, since the symbol does
not, and not to the symbol itself, since that would be a cycle. -/
lemma HasValue.evaluateOnPath_eq {b : Binding} {e : Expr} {value : ℚ} (h : b.HasValue e value) :
    ∀ path, b.AvoidsPath path e → b.evaluateOnPath path e = .ok value := by
  induction h with
  | constant value =>
    intro path _
    rw [evaluateOnPath]
  | @symbol name replacement value hget hv ih =>
    intro path hpath
    have havoid := hpath name (Expr.mem_symbols_symbol.2 rfl)
    have hfresh : name ∉ path := fun hmem => havoid name hmem .refl
    have hnext : b.AvoidsPath (name :: path) replacement := by
      intro next hnext other hother hreach
      have hstep : b.DependsOn name next := ⟨replacement, hget, hnext⟩
      rcases List.mem_cons.1 hother with rfl | hother
      · exact (HasValue.symbol hget hv).not_transGen_self (.head' hstep hreach)
      · exact havoid other hother (.head hstep hreach)
    rw [evaluateOnPath_replacement hget hfresh]
    exact ih (name :: path) hnext
  | node _ _ h ihl ihr =>
    intro path hpath
    have hl := ihl path fun name hname => hpath name (Expr.mem_symbols_node.2 (Or.inl hname))
    have hr := ihr path fun name hname => hpath name (Expr.mem_symbols_node.2 (Or.inr hname))
    rw [evaluateOnPath, hl, hr]
    exact h

/-- Each symbol of the path leads to each symbol of an expression. -/
def LeadsTo (b : Binding) (path : List String) (e : Expr) : Prop :=
  ∀ name ∈ path, ∀ other ∈ e.symbols, Relation.TransGen b.DependsOn name other

/-- A symbol with a value that the path leads to does not lead back to the path. -/
lemma HasValue.avoidsPath {b : Binding} {name : String} {value : ℚ} {path : List String}
    (h : b.HasValue (.symbol name) value) (hpath : b.LeadsTo path (.symbol name)) :
    b.AvoidsPath path (.symbol name) := by
  intro other hother start hstart hreach
  obtain rfl := Expr.mem_symbols_symbol.1 hother
  exact h.not_transGen_self (.trans_right hreach (hpath start hstart name hother))

/-- A longer path leads to the replacement of its last symbol. -/
lemma LeadsTo.replacement {b : Binding} {name : String} {replacement : Expr} {path : List String}
    (h : b.LeadsTo path (.symbol name)) (hget : b.get? name = some replacement) :
    b.LeadsTo (name :: path) replacement := by
  intro start hstart other hother
  have hstep : b.DependsOn name other := ⟨replacement, hget, hother⟩
  rcases List.mem_cons.1 hstart with rfl | hstart
  · exact .single hstep
  · exact .tail (h start hstart name (Expr.mem_symbols_symbol.2 rfl)) hstep

lemma LeadsTo.left {b : Binding} {left right : Expr} {op : Operator} {path : List String}
    (h : b.LeadsTo path (.node left op right)) : b.LeadsTo path left :=
  fun start hstart other hother => h start hstart other (Expr.mem_symbols_node.2 (Or.inl hother))

lemma LeadsTo.right {b : Binding} {left right : Expr} {op : Operator} {path : List String}
    (h : b.LeadsTo path (.node left op right)) : b.LeadsTo path right :=
  fun start hstart other hother => h start hstart other (Expr.mem_symbols_node.2 (Or.inr hother))

/-! ## Remembered values -/

/-- The remembered values are those of their symbols. -/
def Remembers (b : Binding) (resolved : Resolved) : Prop :=
  ∀ (name : String) value, resolved[name]? = some value → b.HasValue (.symbol name) value

lemma Remembers.insert {b : Binding} {resolved : Resolved} (h : b.Remembers resolved)
    {name : String} {value : ℚ} (hv : b.HasValue (.symbol name) value) :
    b.Remembers (resolved.insert name value) := by
  intro other w hw
  rcases SortedMap.getElem?_insert_eq_some_iff.1 hw with ⟨rfl, rfl⟩ | ⟨-, hw⟩
  · exact hv
  · exact h other w hw

/-- What evaluation without a memory has to do with a result of evaluation with one. -/
def Agrees (b : Binding) (path : List String) (e : Expr)
    (result : Except ExprError (ℚ × Resolved)) : Prop :=
  match result with
  | .ok (value, resolved) =>
    b.evaluateOnPath path e = .ok value ∧ b.HasValue e value ∧ b.Remembers resolved
  | .error error => b.evaluateOnPath path e = .error error

/-- **The result with remembered values is that without them**, and all values that are remembered
are right.

**Proof sketch.** Induction along the evaluation. A remembered symbol does not lead back to the
path, so without the memory it has the same value. In all other cases both evaluations go the same
way. -/
lemma agrees_evaluateFrom (b : Binding) (path : List String) (resolved : Resolved) (e : Expr)
    (hres : b.Remembers resolved) (hpath : b.LeadsTo path e) :
    b.Agrees path e (b.evaluateFrom path resolved e) := by
  fun_induction evaluateFrom b path resolved e with
  | case1 path resolved value => exact ⟨by rw [evaluateOnPath], .constant value, hres⟩
  | case2 path resolved name hnone => exact evaluateOnPath_unbound hnone path
  | case3 path resolved name replacement hget value hvalue =>
    -- the value is taken before the path is looked at
    have hv := hres name value hvalue
    exact ⟨hv.evaluateOnPath_eq path (hv.avoidsPath hpath), hv, hres⟩
  | case4 path resolved name replacement hget hnew hmem => exact evaluateOnPath_cyclic hget hmem
  | case5 path resolved name replacement hget hnew hmem error herror ih =>
    have hagrees := ih hres (hpath.replacement hget)
    rw [herror] at hagrees
    exact (evaluateOnPath_replacement hget hmem).trans hagrees
  | case6 path resolved name replacement hget hnew hmem value resolved' hok ih =>
    have hagrees := ih hres (hpath.replacement hget)
    rw [hok] at hagrees
    obtain ⟨heq, hv, hres'⟩ := hagrees
    have hsymbol := HasValue.symbol hget hv
    exact ⟨(evaluateOnPath_replacement hget hmem).trans heq, hsymbol, hres'.insert hsymbol⟩
  | case7 path resolved left op right error hl ihl =>
    have hleft := ihl hres hpath.left
    rw [hl] at hleft
    rw [Agrees, evaluateOnPath, hleft]
  | case8 path resolved left op right x resolved' hl error hr ihl ihr =>
    have hleft := ihl hres hpath.left
    rw [hl] at hleft
    have hright := ihr hleft.2.2 hpath.right
    rw [hr] at hright
    rw [Agrees, evaluateOnPath, hleft.1, hright]
  | case9 path resolved left op right x resolved' hl y resolved'' hr error happly ihl ihr =>
    have hleft := ihl hres hpath.left
    rw [hl] at hleft
    have hright := ihr hleft.2.2 hpath.right
    rw [hr] at hright
    rw [Agrees, evaluateOnPath, hleft.1, hright.1]
    exact happly
  | case10 path resolved left op right x resolved' hl y resolved'' hr value happly ihl ihr =>
    have hleft := ihl hres hpath.left
    rw [hl] at hleft
    obtain ⟨hleft, hx, hres'⟩ := hleft
    have hright := ihr hres' hpath.right
    rw [hr] at hright
    obtain ⟨hright, hy, hres''⟩ := hright
    refine ⟨?_, .node hx hy happly, hres''⟩
    rw [evaluateOnPath, hleft, hright]
    exact happly

/-- At the start there is no path and nothing is remembered. -/
lemma agrees_start (b : Binding) (e : Expr) : b.Agrees [] e (b.evaluateFrom [] ∅ e) :=
  b.agrees_evaluateFrom [] ∅ e (fun _ _ h => by simp at h) fun _ h => absurd h List.not_mem_nil

lemma Agrees.map_fst {b : Binding} {path : List String} {e : Expr}
    {result : Except ExprError (ℚ × Resolved)} (h : b.Agrees path e result) :
    result.map Prod.fst = b.evaluateOnPath path e := by
  cases result with
  | error error => exact h.symm
  | ok result => exact h.1.symm

end Binding

namespace Expr

/-- **Remembered values do not change the result**: evaluation gives the value, or the failure, that
evaluation with the path alone gives. -/
theorem evaluate_eq_evaluateOnPath (e : Expr) (b : Binding) :
    e.evaluate b = b.evaluateOnPath [] e :=
  (b.agrees_start e).map_fst

/-- **An expression evaluates to the value that it has by substitution.** -/
lemma evaluate_eq_ok_iff {e : Expr} {b : Binding} {value : ℚ} :
    e.evaluate b = .ok value ↔ b.HasValue e value := by
  have hagrees := b.agrees_start e
  constructor
  · intro h
    rw [evaluate] at h
    cases hresult : b.evaluateFrom [] ∅ e with
    | error error => simp [hresult, Except.map] at h
    | ok result =>
      rw [hresult] at h hagrees
      obtain rfl := Except.ok.inj h
      exact hagrees.2.1
  · intro h
    rw [evaluate, hagrees.map_fst]
    exact h.evaluateOnPath_eq [] fun _ _ _ hother => absurd hother List.not_mem_nil

end Expr

/-! ## Values of terms -/

/-- **If each symbol has the value that an assignment gives it, the expression has the value of its
term at the assignment.** -/
lemma Binding.HasValue.of_toTerm {b : Binding} {e : Expr} {σ : String → ℚ} {value : ℚ}
    (h : ∀ name ∈ e.symbols, b.HasValue (.symbol name) (σ name))
    (hvalue : e.toTerm.value σ = .ok value) : b.HasValue e value := by
  induction e generalizing value with
  | symbol name =>
    obtain rfl : σ name = value := Except.ok.inj hvalue
    exact h name (Expr.mem_symbols_symbol.2 rfl)
  | constant q =>
    obtain rfl : q = value := Except.ok.inj hvalue
    exact .constant q
  | node left op right ihl ihr =>
    rw [Expr.toTerm, Term.value] at hvalue
    have hleft := fun name hname => h name (Expr.mem_symbols_node.2 (Or.inl hname))
    have hright := fun name hname => h name (Expr.mem_symbols_node.2 (Or.inr hname))
    cases hl : left.toTerm.value σ with
    | error error => simp [hl, bind, Except.bind] at hvalue
    | ok x =>
      cases hr : right.toTerm.value σ with
      | error error => simp [hl, hr, bind, Except.bind] at hvalue
      | ok y =>
        rw [hl, hr] at hvalue
        exact .node (ihl hleft hl) (ihr hright hr) hvalue

end ExactArith
