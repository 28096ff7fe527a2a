import ExactArith.Expr.Evaluation
import ExactArith.Proofs.SortedMap
import ExactArith.Proofs.Tree.Recursion
import Mathlib.Algebra.Ring.Nat

set_option autoImplicit false
set_option relaxedAutoImplicit false

/-!
# How deep evaluation nests

Evaluation leaves the tree at each symbol and goes on in its replacement, so its calls nest deeper
than the tree. But a symbol is replaced only if it is not on the path, and then it is on the path of
all calls inside. So among the calls that are open at a time each replacement is entered at most
once, and there are no more of them than the depths of the expression and of all replacements
together, also where the binding has cycles.

## Main definitions

* `ExactArith.Binding.Call`, `ExactArith.Binding.CallsInside` — the calls of an evaluation, and
  which call makes which.
* `ExactArith.Binding.evaluateWithin` — evaluation with a limit on the calls that are open at a
  time.
* `ExactArith.Binding.reserve` — the depths of the replacements that are not on the path.

## Main results

* `ExactArith.Binding.reserve_cons` — a replacement that is entered is no longer in reserve.
* `ExactArith.Binding.CallsInside.room_lt` — a call leaves less room to the calls that it makes.
* `ExactArith.Binding.evaluateWithin_eq_some` — a limit that leaves room for a call does not show in
  its result.
* `ExactArith.Expr.evaluateWithin_eq_evaluate` — from the start, for every expression and binding.
-/

namespace ExactArith

namespace Expr

lemma depth_symbol (name : String) : (symbol name).depth = 1 :=
  BinaryTree.follows_depth.of_leaf _ rfl

lemma depth_constant (value : ℚ) : (constant value).depth = 1 :=
  BinaryTree.follows_depth.of_leaf _ rfl

lemma depth_node (left : Expr) (op : Operator) (right : Expr) :
    (node left op right).depth = 1 + max left.depth right.depth :=
  BinaryTree.follows_depth.of_node _ left right rfl

lemma depth_pos (e : Expr) : 0 < e.depth := by
  cases e with
  | symbol name => rw [depth_symbol]; omega
  | constant value => rw [depth_constant]; omega
  | node left op right => rw [depth_node]; omega

end Expr

namespace Binding

/-! ## Calls -/

/-- A call of the evaluation: the path, the values that are known, and the expression. -/
structure Call where
  /-- The symbols whose replacements are being evaluated. -/
  path : List String
  /-- The values of the symbols that have been replaced. -/
  resolved : Resolved
  /-- What is evaluated. -/
  expr : Expr

/-- One call makes another one before it returns. -/
inductive CallsInside (b : Binding) : Call → Call → Prop
  /-- A symbol that is bound, not known yet and not on the path has its replacement evaluated. -/
  | replacement {path : List String} {resolved : Resolved} {name : String} {replacement : Expr}
      (hget : b.get? name = some replacement) (hnew : resolved[name]? = none) (hmem : name ∉ path) :
      CallsInside b ⟨path, resolved, .symbol name⟩ ⟨name :: path, resolved, replacement⟩
  /-- A node has its left operand evaluated. -/
  | left {path : List String} {resolved : Resolved} {left right : Expr} {op : Operator} :
      CallsInside b ⟨path, resolved, .node left op right⟩ ⟨path, resolved, left⟩
  /-- If the left operand has a value, the right one is evaluated with what is known then. -/
  | right {path : List String} {resolved resolved' : Resolved} {left right : Expr} {op : Operator}
      {x : ℚ} (hleft : b.evaluateFrom path resolved left = .ok (x, resolved')) :
      CallsInside b ⟨path, resolved, .node left op right⟩ ⟨path, resolved', right⟩

/-- Evaluates an expression with at most `limit` calls open at a time, and gives no result if that
is not enough. -/
def evaluateWithin (b : Binding) :
    ℕ → List String → Resolved → Expr → Option (Except ExprError (ℚ × Resolved))
  | 0, _, _, _ => none
  | _ + 1, _, resolved, .constant value => some (.ok (value, resolved))
  | limit + 1, path, resolved, .symbol name =>
    match b.get? name with
    | none => some (.error (.unboundSymbol name))
    | some replacement =>
      match resolved[name]? with
      | some value => some (.ok (value, resolved))
      | none =>
        if name ∈ path then
          some (.error (.cyclicBinding name))
        else
          match evaluateWithin b limit (name :: path) resolved replacement with
          | none => none
          | some (.error error) => some (.error error)
          | some (.ok (value, resolved)) => some (.ok (value, resolved.insert name value))
  | limit + 1, path, resolved, .node left op right =>
    match evaluateWithin b limit path resolved left with
    | none => none
    | some (.error error) => some (.error error)
    | some (.ok (x, resolved)) =>
      match evaluateWithin b limit path resolved right with
      | none => none
      | some (.error error) => some (.error error)
      | some (.ok (y, resolved)) =>
        match op.apply x y with
        | .error error => some (.error error)
        | .ok value => some (.ok (value, resolved))

/-! ## The room for calls -/

/-- The depths of the replacements that are not on the path, taken together. -/
def reserve (b : Binding) (path : List String) : ℕ :=
  ((b.toList.filter fun entry => entry.1 ∉ path).map fun entry => entry.2.depth).sum

lemma reserve_nil (b : Binding) : b.reserve [] = (b.toList.map fun entry => entry.2.depth).sum := by
  simp [reserve]

/-- In a list with distinct keys, taking one key away lowers a sum by its part.

**Proof sketch.** Induction on the list. After the entry of the key there is no other one of it. -/
lemma sum_filter_notMem_cons {entries : List (String × Expr)} {name : String} {o : Option Expr}
    (h : SortedMap.Lists entries name o) {path : List String} (hmem : name ∉ path) (f : Expr → ℕ) :
    ((entries.filter fun entry => entry.1 ∉ path).map fun entry => f entry.2).sum =
      ((entries.filter fun entry => entry.1 ∉ name :: path).map fun entry => f entry.2).sum +
        o.elim 0 f := by
  induction entries generalizing o with
  | nil => simp [h.of_nil]
  | cons entry entries ih =>
    rcases h.of_cons with ⟨rfl, rfl, hrest⟩ | ⟨hne, hrest⟩
    · rw [List.filter_cons_of_pos (by simpa using hmem), List.filter_cons_of_neg (by simp),
        List.map_cons, List.sum_cons, ih hrest]
      exact add_comm _ _
    · by_cases hentry : entry.1 ∈ path
      · rw [List.filter_cons_of_neg (by simpa using hentry),
          List.filter_cons_of_neg (by simp [hentry]), ih hrest]
      · rw [List.filter_cons_of_pos (by simpa using hentry),
          List.filter_cons_of_pos (by simp [hentry, hne]), List.map_cons, List.map_cons,
          List.sum_cons, List.sum_cons, ih hrest, add_assoc]

/-- **A replacement that is entered is no longer in reserve.** -/
lemma reserve_cons {b : Binding} {name : String} {replacement : Expr} {path : List String}
    (hget : b.get? name = some replacement) (hmem : name ∉ path) :
    b.reserve path = b.reserve (name :: path) + replacement.depth := by
  have hlists := SortedMap.lists_toList b.entries name
  rw [show b.entries[name]? = some replacement from hget] at hlists
  exact sum_filter_notMem_cons hlists hmem Expr.depth

/-- The room that a call needs: the depths of its expression and of the replacements that are not on
its path. -/
def room (b : Binding) (call : Call) : ℕ := call.expr.depth + b.reserve call.path

/-- **A call leaves less room to the calls that it makes.** -/
lemma CallsInside.room_lt {b : Binding} {outer inner : Call} (h : b.CallsInside outer inner) :
    b.room inner < b.room outer := by
  cases h with
  | replacement hget hnew hmem =>
    rw [room, room, reserve_cons hget hmem, Expr.depth_symbol]
    dsimp only
    omega
  | left =>
    rw [room, room, Expr.depth_node]
    dsimp only
    omega
  | right hleft =>
    rw [room, room, Expr.depth_node]
    dsimp only
    omega

/-- What is enough for a call is, lowered by one, enough for the calls that it makes. -/
lemma CallsInside.room_le {b : Binding} {outer inner : Call} {limit : ℕ}
    (h : b.CallsInside outer inner) (hlimit : b.room outer ≤ limit + 1) : b.room inner ≤ limit :=
  Nat.le_of_lt_succ (h.room_lt.trans_le hlimit)

/-- Every call needs room. -/
lemma exists_succ_of_room_le {b : Binding} {call : Call} {limit : ℕ} (h : b.room call ≤ limit) :
    ∃ n, limit = n + 1 :=
  Nat.exists_eq_succ_of_ne_zero
    ((Nat.add_pos_left call.expr.depth_pos _).trans_le h).ne'

/-- Calls that are open at a time are no more than the first of them has room for.

**Proof sketch.** Induction on the calls: each leaves less room to the next one. -/
lemma length_le_room {b : Binding} {call : Call} {calls : List Call}
    (h : (call :: calls).IsChain b.CallsInside) : (call :: calls).length ≤ b.room call := by
  induction calls generalizing call with
  | nil =>
    have hpos := call.expr.depth_pos
    rw [List.length_singleton, room]
    omega
  | cons inner calls ih =>
    rw [List.isChain_cons_cons] at h
    have hroom := h.1.room_lt
    have hrest := ih h.2
    rw [List.length_cons]
    omega

/-- **A limit that leaves room for a call does not show in its result.**

**Proof sketch.** Induction along the evaluation. The calls that a call makes need less room, so the
limit is enough for them after it has been lowered by one. -/
lemma evaluateWithin_eq_some {b : Binding} {path : List String} {resolved : Resolved} {e : Expr}
    {limit : ℕ} (h : b.room ⟨path, resolved, e⟩ ≤ limit) :
    b.evaluateWithin limit path resolved e = some (b.evaluateFrom path resolved e) := by
  fun_induction evaluateFrom b path resolved e generalizing limit with
  | case1 path resolved value =>
    obtain ⟨limit, rfl⟩ := exists_succ_of_room_le h
    rw [evaluateWithin]
  | case2 path resolved name hnone =>
    obtain ⟨limit, rfl⟩ := exists_succ_of_room_le h
    simp only [evaluateWithin, hnone]
  | case3 path resolved name replacement hget value hvalue =>
    obtain ⟨limit, rfl⟩ := exists_succ_of_room_le h
    simp only [evaluateWithin, hget, hvalue]
  | case4 path resolved name replacement hget hnew hmem =>
    obtain ⟨limit, rfl⟩ := exists_succ_of_room_le h
    simp only [evaluateWithin, hget, hnew, if_pos hmem]
  | case5 path resolved name replacement hget hnew hmem error herror ih =>
    obtain ⟨limit, rfl⟩ := exists_succ_of_room_le h
    have hinside := CallsInside.replacement hget hnew hmem
    have hcall := ih (hinside.room_le h)
    rw [herror] at hcall
    simp only [evaluateWithin, hget, hnew, if_neg hmem, hcall]
  | case6 path resolved name replacement hget hnew hmem value resolved' hok ih =>
    obtain ⟨limit, rfl⟩ := exists_succ_of_room_le h
    have hinside := CallsInside.replacement hget hnew hmem
    have hcall := ih (hinside.room_le h)
    rw [hok] at hcall
    simp only [evaluateWithin, hget, hnew, if_neg hmem, hcall]
  | case7 path resolved left op right error hl ihl =>
    obtain ⟨limit, rfl⟩ := exists_succ_of_room_le h
    have hleft := ihl (CallsInside.left.room_le h)
    rw [hl] at hleft
    simp only [evaluateWithin, hleft]
  | case8 path resolved left op right x resolved' hl error hr ihl ihr =>
    obtain ⟨limit, rfl⟩ := exists_succ_of_room_le h
    have hleft := ihl (CallsInside.left.room_le h)
    have hright := ihr ((CallsInside.right hl).room_le h)
    rw [hl] at hleft
    rw [hr] at hright
    simp only [evaluateWithin, hleft, hright]
  | case9 path resolved left op right x resolved' hl y resolved'' hr error happly ihl ihr =>
    obtain ⟨limit, rfl⟩ := exists_succ_of_room_le h
    have hleft := ihl (CallsInside.left.room_le h)
    have hright := ihr ((CallsInside.right hl).room_le h)
    rw [hl] at hleft
    rw [hr] at hright
    simp only [evaluateWithin, hleft, hright, happly]
  | case10 path resolved left op right x resolved' hl y resolved'' hr value happly ihl ihr =>
    obtain ⟨limit, rfl⟩ := exists_succ_of_room_le h
    have hleft := ihl (CallsInside.left.room_le h)
    have hright := ihr ((CallsInside.right hl).room_le h)
    rw [hl] at hleft
    rw [hr] at hright
    simp only [evaluateWithin, hleft, hright, happly]

end Binding

namespace Expr

/-- **Evaluation ends on every binding, with a bounded number of open calls.** The calls that are
open at a time are no more than the depth of the expression and the depths of all replacements
together, whether or not the binding has cycles; and evaluation with this limit, or a greater one,
gives the result that it gives without.

**Proof sketch.** At the start no replacement is on the path, so all of them are in reserve. -/
theorem evaluateWithin_eq_evaluate (e : Expr) (b : Binding) :
    (∀ calls : List Binding.Call, (⟨[], ∅, e⟩ :: calls).IsChain b.CallsInside →
      (⟨[], ∅, e⟩ :: calls : List Binding.Call).length ≤
        e.depth + (b.toList.map fun entry => entry.2.depth).sum) ∧
    ∀ extra, (b.evaluateWithin (e.depth + (b.toList.map fun entry => entry.2.depth).sum + extra)
      [] ∅ e).map (Except.map Prod.fst) = some (e.evaluate b) := by
  have hroom : b.room ⟨[], ∅, e⟩ = e.depth + (b.toList.map fun entry => entry.2.depth).sum := by
    rw [Binding.room, Binding.reserve_nil]
  rw [← hroom]
  refine ⟨fun calls hcalls => Binding.length_le_room hcalls, fun extra => ?_⟩
  rw [Binding.evaluateWithin_eq_some (Nat.le_add_right _ extra)]
  rfl

/-- With `x` replaced by `y` and `y` by `x`, three calls are open when the cycle is noticed, which
is what the depths of `x` and of the two replacements come to. -/
theorem evaluateWithin_eq_evaluate_cycle :
    ([⟨[], ∅, symbol "x"⟩, ⟨["x"], ∅, symbol "y"⟩, ⟨["y", "x"], ∅, symbol "x"⟩] :
        List Binding.Call).IsChain
      (Binding.ofList [("x", symbol "y"), ("y", symbol "x")]).CallsInside ∧
    3 ≤ (symbol "x").depth + ((Binding.ofList [("x", symbol "y"), ("y", symbol "x")]).toList.map
      fun entry => entry.2.depth).sum ∧
    ((Binding.ofList [("x", symbol "y"), ("y", symbol "x")]).evaluateWithin 3 [] ∅ (symbol "x")).map
        (Except.map Prod.fst) =
      some ((symbol "x").evaluate (.ofList [("x", symbol "y"), ("y", symbol "x")])) := by
  have hx : (Binding.ofList [("x", symbol "y"), ("y", symbol "x")]).get? "x" =
      some (symbol "y") := by decide +kernel
  have hy : (Binding.ofList [("x", symbol "y"), ("y", symbol "x")]).get? "y" =
      some (symbol "x") := by decide +kernel
  have hlist : (Binding.ofList [("x", symbol "y"), ("y", symbol "x")]).toList =
      [("x", symbol "y"), ("y", symbol "x")] := by decide +kernel
  have hchain : ([⟨[], ∅, symbol "x"⟩, ⟨["x"], ∅, symbol "y"⟩, ⟨["y", "x"], ∅, symbol "x"⟩] :
      List Binding.Call).IsChain
        (Binding.ofList [("x", symbol "y"), ("y", symbol "x")]).CallsInside :=
    .cons_cons (.replacement hx (by simp) (by simp))
      (.cons_cons (.replacement hy (by simp) (by decide)) (.singleton _))
  obtain ⟨hcalls, hwithin⟩ := evaluateWithin_eq_evaluate (symbol "x")
    (.ofList [("x", symbol "y"), ("y", symbol "x")])
  have hresult := hwithin 0
  rw [hlist] at hresult
  simp only [List.map_cons, List.map_nil, depth_symbol, List.sum_cons, List.sum_nil] at hresult
  exact ⟨hchain, hcalls _ hchain, hresult⟩

end Expr

end ExactArith
