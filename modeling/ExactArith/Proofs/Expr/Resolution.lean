import ExactArith.Proofs.Expr.Nesting
import ExactArith.Proofs.Expr.Evaluation

set_option autoImplicit false
set_option relaxedAutoImplicit false

/-!
# Each symbol is resolved once

An evaluation that works in place has one stack of the symbols that are being resolved and one table
of those that have been. A symbol is put on the stack before its replacement is evaluated and taken
off afterwards, whether or not the replacement has a value; only if it has one does the symbol enter
the table. So during the evaluation a symbol that was ever put on the stack is still on it or in the
table, unless there was a failure, after which nothing is put on the stack any more. Since a symbol
is put on the stack only if it is neither there nor in the table, this happens once at most.

## Main definitions

* `ExactArith.Binding.Workspace` — the stack and the table, with a record of what was done to them.
* `ExactArith.Binding.evaluateIn` — evaluation in place.
* `ExactArith.Binding.Coherent` — a stack and a table fit together.
* `ExactArith.Binding.Workspace.IsRecorded` — what the record says at all times.

## Main results

* `ExactArith.Binding.evaluateFrom_eq_map` — evaluation in place has the same results, and leaves
  the same table.
* `ExactArith.Binding.grows_evaluateIn` — the table only grows.
* `ExactArith.Binding.isRecorded_evaluateIn` — every call finds a stack and a table that fit
  together, and no symbol is put on the stack twice.
* `ExactArith.Binding.mem_calls_evaluateIn` — the record has the calls that are made.
* `ExactArith.Expr.evaluate_resolves_once` — from the start, for every expression and binding.
-/

namespace ExactArith

namespace Binding

/-! ## Evaluation in place -/

/-- What the calls of an evaluation work on, with a record of what they did. -/
structure Workspace where
  /-- The symbols whose replacements are being evaluated, the latest first. -/
  resolving : List String
  /-- The values of the symbols that have been replaced. -/
  resolved : Resolved
  /-- The record of the symbols that were put on `resolving`, the latest first. -/
  pushed : List String
  /-- The record of the calls with what they found, the latest first. -/
  calls : List Call

namespace Workspace

/-- Nothing has been done. -/
def empty : Workspace := ⟨[], ∅, [], []⟩

/-- A call begins. -/
def enter (w : Workspace) (e : Expr) : Workspace :=
  { w with calls := ⟨w.resolving, w.resolved, e⟩ :: w.calls }

/-- A symbol is put on the stack. -/
def push (w : Workspace) (name : String) : Workspace :=
  { w with resolving := name :: w.resolving, pushed := name :: w.pushed }

/-- The latest symbol is taken off the stack. -/
def pop (w : Workspace) : Workspace := { w with resolving := w.resolving.tail }

/-- A symbol gets its value. -/
def resolve (w : Workspace) (name : String) (value : ℚ) : Workspace :=
  { w with resolved := w.resolved.insert name value }

end Workspace

/-- Evaluates an expression in place. The stack is the same afterwards, which is part of the result
because evaluation would not end otherwise: the right operand of a node is evaluated with the stack
that the left one leaves. -/
def evaluateIn (b : Binding) (w : Workspace) :
    Expr → Except ExprError ℚ × { w' : Workspace // w'.resolving = w.resolving }
  | .constant value => (.ok value, ⟨w.enter (.constant value), rfl⟩)
  | .symbol name =>
    match _ : b.get? name with
    | none => (.error (.unboundSymbol name), ⟨w.enter (.symbol name), rfl⟩)
    | some replacement =>
      match w.resolved[name]? with
      | some value => (.ok value, ⟨w.enter (.symbol name), rfl⟩)
      | none =>
        if _ : name ∈ w.resolving then
          (.error (.cyclicBinding name), ⟨w.enter (.symbol name), rfl⟩)
        else
          match evaluateIn b ((w.enter (.symbol name)).push name) replacement with
          | (.error error, ⟨w', hw'⟩) => (.error error, ⟨w'.pop, congrArg List.tail hw'⟩)
          | (.ok value, ⟨w', hw'⟩) =>
            (.ok value, ⟨w'.pop.resolve name value, congrArg List.tail hw'⟩)
  | .node left op right =>
    match evaluateIn b (w.enter (.node left op right)) left with
    | (.error error, ⟨w', hw'⟩) => (.error error, ⟨w', hw'⟩)
    | (.ok x, ⟨w', hw'⟩) =>
      match evaluateIn b w' right with
      | (.error error, ⟨w'', hw''⟩) => (.error error, ⟨w'', hw''.trans hw'⟩)
      | (.ok y, ⟨w'', hw''⟩) => (op.apply x y, ⟨w'', hw''.trans hw'⟩)
termination_by e => (b.unvisited w.resolving, e)
decreasing_by
  · exact Prod.Lex.left _ _ (unvisited_cons_lt ‹_› ‹_›)
  · exact Prod.Lex.right _ (by simp only [Expr.node.sizeOf_spec]; omega)
  · rw [show w'.resolving = w.resolving from hw']
    exact Prod.Lex.right _ (by simp only [Expr.node.sizeOf_spec]; omega)

/-- What evaluation does with a symbol. -/
lemma evaluateFrom_symbol (b : Binding) (path : List String) (resolved : Resolved) (name : String) :
    b.evaluateFrom path resolved (.symbol name) =
      match b.get? name with
      | none => .error (.unboundSymbol name)
      | some replacement =>
        match resolved[name]? with
        | some value => .ok (value, resolved)
        | none =>
          if name ∈ path then .error (.cyclicBinding name)
          else
            match b.evaluateFrom (name :: path) resolved replacement with
            | .error error => .error error
            | .ok (value, resolved) => .ok (value, resolved.insert name value) := by
  rw [evaluateFrom]
  split
  · next hnone => rw [hnone]
  · next replacement hget => rw [hget]; rfl

/-- **Evaluation in place has the same results and leaves the same table.**

**Proof sketch.** Induction along the evaluation: a call finds the stack and the table as the
arguments of the other evaluation, and after a value it leaves the stack as it was. -/
lemma evaluateFrom_eq_map (b : Binding) (w : Workspace) (e : Expr) :
    b.evaluateFrom w.resolving w.resolved e =
      (b.evaluateIn w e).1.map fun value => (value, (b.evaluateIn w e).2.1.resolved) := by
  fun_induction evaluateIn b w e with
  | case1 w value =>
    rw [evaluateFrom]
    rfl
  | case2 w name hnone =>
    rw [evaluateFrom_symbol, hnone]
    rfl
  | case3 w name replacement hget value hvalue =>
    simp only [evaluateFrom_symbol, hget, hvalue]
    rfl
  | case4 w name replacement hget hnew hmem =>
    simp only [evaluateFrom_symbol, hget, hnew, if_pos hmem]
    rfl
  | case5 w name replacement hget hnew hmem error w' hw' herror ih =>
    have hcall : b.evaluateFrom (name :: w.resolving) w.resolved replacement = .error error := by
      rw [herror] at ih
      exact ih
    simp only [evaluateFrom_symbol, hget, hnew, if_neg hmem, hcall]
    rfl
  | case6 w name replacement hget hnew hmem value w' hw' hok ih =>
    have hcall : b.evaluateFrom (name :: w.resolving) w.resolved replacement =
        .ok (value, w'.resolved) := by
      rw [hok] at ih
      exact ih
    simp only [evaluateFrom_symbol, hget, hnew, if_neg hmem, hcall]
    rfl
  | case7 w left op right error w' hw' hl ihl =>
    have hleft : b.evaluateFrom w.resolving w.resolved left = .error error := by
      rw [hl] at ihl
      exact ihl
    rw [evaluateFrom, hleft]
    rfl
  | case8 w left op right x w' hw' hl error w'' hw'' hr ihl ihr =>
    have hleft : b.evaluateFrom w.resolving w.resolved left = .ok (x, w'.resolved) := by
      rw [hl] at ihl
      exact ihl
    have hright : b.evaluateFrom w.resolving w'.resolved right = .error error := by
      rw [hr] at ihr
      exact (show w'.resolving = w.resolving from hw') ▸ ihr
    simp only [evaluateFrom, hleft, hright]
    rfl
  | case9 w left op right x w' hw' hl y w'' hw'' hr ihl ihr =>
    have hleft : b.evaluateFrom w.resolving w.resolved left = .ok (x, w'.resolved) := by
      rw [hl] at ihl
      exact ihl
    have hright : b.evaluateFrom w.resolving w'.resolved right = .ok (y, w''.resolved) := by
      rw [hr] at ihr
      exact (show w'.resolving = w.resolving from hw') ▸ ihr
    simp only [evaluateFrom, hleft, hright]
    cases op.apply x y <;> rfl

/-! ## The table -/

/-- A table has the values of another one, and perhaps more. -/
def Grows (r s : Resolved) : Prop := ∀ (name : String) value, r[name]? = some value →
  s[name]? = some value

lemma Grows.refl (r : Resolved) : Grows r r := fun _ _ h => h

lemma Grows.trans {r s t : Resolved} (h : Grows r s) (h' : Grows s t) : Grows r t :=
  fun name value hv => h' name value (h name value hv)

/-- A new entry takes nothing away. -/
lemma Grows.insert {r s : Resolved} (h : Grows r s) {name : String} (hnew : r[name]? = none)
    (value : ℚ) : Grows r (s.insert name value) := by
  intro other x hx
  refine SortedMap.getElem?_insert_eq_some_iff.2 (Or.inr ⟨?_, h other x hx⟩)
  rintro rfl
  simp [hnew] at hx

/-- **The table only grows.** -/
lemma grows_evaluateIn (b : Binding) (w : Workspace) (e : Expr) :
    Grows w.resolved (b.evaluateIn w e).2.1.resolved := by
  fun_induction evaluateIn b w e with
  | case1 w value => exact .refl _
  | case2 w name hnone => exact .refl _
  | case3 w name replacement hget value hvalue => exact .refl _
  | case4 w name replacement hget hnew hmem => exact .refl _
  | case5 w name replacement hget hnew hmem error w' hw' herror ih =>
    rw [herror] at ih
    exact ih
  | case6 w name replacement hget hnew hmem value w' hw' hok ih =>
    rw [hok] at ih
    exact Grows.insert ih hnew value
  | case7 w left op right error w' hw' hl ihl =>
    rw [hl] at ihl
    exact ihl
  | case8 w left op right x w' hw' hl error w'' hw'' hr ihl ihr =>
    rw [hl] at ihl
    rw [hr] at ihr
    exact Grows.trans ihl ihr
  | case9 w left op right x w' hw' hl y w'' hw'' hr ihl ihr =>
    rw [hl] at ihl
    rw [hr] at ihr
    exact Grows.trans ihl ihr

/-- A symbol on the stack gets no value before it is taken off. -/
lemma resolved_of_mem_resolving (b : Binding) (w : Workspace) (e : Expr) {name : String}
    (hname : name ∈ w.resolving) :
    (b.evaluateIn w e).2.1.resolved[name]? = w.resolved[name]? := by
  fun_induction evaluateIn b w e with
  | case1 w value => rfl
  | case2 w other hnone => rfl
  | case3 w other replacement hget value hvalue => rfl
  | case4 w other replacement hget hnew hmem => rfl
  | case5 w other replacement hget hnew hmem error w' hw' herror ih =>
    rw [herror] at ih
    exact ih (List.mem_cons_of_mem other hname)
  | case6 w other replacement hget hnew hmem value w' hw' hok ih =>
    have hkept : w'.resolved[name]? = w.resolved[name]? := by
      rw [hok] at ih
      exact ih (List.mem_cons_of_mem other hname)
    have hne : other ≠ name := fun heq => hmem (heq ▸ hname)
    change (w'.resolved.insert other value)[name]? = _
    simp [Std.ExtTreeMap.getElem?_insert, hne, hkept]
  | case7 w left op right error w' hw' hl ihl =>
    rw [hl] at ihl
    exact ihl hname
  | case8 w left op right x w' hw' hl error w'' hw'' hr ihl ihr =>
    rw [hl] at ihl
    rw [hr] at ihr
    exact (ihr (hw'.symm ▸ hname)).trans (ihl hname)
  | case9 w left op right x w' hw' hl y w'' hw'' hr ihl ihr =>
    rw [hl] at ihl
    rw [hr] at ihr
    exact (ihr (hw'.symm ▸ hname)).trans (ihl hname)

/-! ## What every call finds -/

/-- A stack and a table fit together. -/
structure Coherent (b : Binding) (path : List String) (resolved : Resolved) : Prop where
  /-- The symbols on the stack are distinct. -/
  nodup : path.Nodup
  /-- They have replacements. -/
  bound : ∀ name ∈ path, (b.get? name).isSome = true
  /-- None of them is in the table. -/
  unresolved : ∀ name ∈ path, resolved[name]? = none
  /-- The values in the table are those of their symbols. -/
  remembers : b.Remembers resolved

namespace Coherent

variable {b : Binding} {w : Workspace} {e : Expr}

lemma push {name : String} {replacement : Expr} {path : List String} {resolved : Resolved}
    (h : b.Coherent path resolved) (hget : b.get? name = some replacement)
    (hnew : resolved[name]? = none) (hmem : name ∉ path) : b.Coherent (name :: path) resolved where
  nodup := List.nodup_cons.2 ⟨hmem, h.nodup⟩
  bound := List.forall_mem_cons.2 ⟨by rw [hget]; rfl, h.bound⟩
  unresolved := List.forall_mem_cons.2 ⟨hnew, h.unresolved⟩
  remembers := h.remembers

/-- **After a value has been found, the stack and the table still fit together.** -/
lemma evaluateIn (h : b.Coherent w.resolving w.resolved) (hpath : b.LeadsTo w.resolving e)
    {value : ℚ} (hok : (b.evaluateIn w e).1 = .ok value) :
    b.Coherent (b.evaluateIn w e).2.1.resolving (b.evaluateIn w e).2.1.resolved := by
  have hagrees := b.agrees_evaluateFrom w.resolving w.resolved e h.remembers hpath
  rw [evaluateFrom_eq_map, hok] at hagrees
  rw [(b.evaluateIn w e).2.2]
  refine ⟨h.nodup, h.bound, fun name hname => ?_, hagrees.2.2⟩
  rw [resolved_of_mem_resolving b w e hname]
  exact h.unresolved name hname

/-- The right operand of a node finds a stack and a table that fit together, if the left one has a
value. -/
lemma right {left right : Expr} {op : Operator} {x : ℚ}
    {left' : { w' : Workspace // w'.resolving = w.resolving }}
    (h : b.Coherent w.resolving w.resolved) (hpath : b.LeadsTo w.resolving (.node left op right))
    (hleft : b.evaluateIn (w.enter (.node left op right)) left = (.ok x, left')) :
    b.Coherent left'.1.resolving left'.1.resolved ∧ b.LeadsTo left'.1.resolving right := by
  have hcoherent := Coherent.evaluateIn (w := w.enter (.node left op right)) h hpath.left
    (congrArg Prod.fst hleft)
  rw [hleft] at hcoherent
  exact ⟨hcoherent, left'.2.symm ▸ hpath.right⟩

end Coherent

/-! ## The record -/

namespace Workspace

variable {b : Binding} {w : Workspace} {name : String}

/-- What the record says at all times, also after a failure. -/
structure IsRecorded (b : Binding) (w : Workspace) : Prop where
  /-- No symbol was put on the stack twice. -/
  pushed_nodup : w.pushed.Nodup
  /-- Every call found a stack and a table that fit together. -/
  calls_coherent : ∀ call ∈ w.calls, b.Coherent call.path call.resolved
  /-- A later call found a table that has the values of the earlier ones. -/
  calls_grow : w.calls.Pairwise fun later earlier => Grows earlier.resolved later.resolved
  /-- The table has the values of those that the calls found. -/
  grows : ∀ call ∈ w.calls, Grows call.resolved w.resolved

/-- Each symbol that was put on the stack is still there, or it has a value. -/
def Accounts (w : Workspace) : Prop :=
  ∀ name ∈ w.pushed, name ∈ w.resolving ∨ (w.resolved[name]?).isSome = true

lemma IsRecorded.enter (h : w.IsRecorded b) (hw : b.Coherent w.resolving w.resolved) (e : Expr) :
    (w.enter e).IsRecorded b where
  pushed_nodup := h.pushed_nodup
  calls_coherent := List.forall_mem_cons.2 ⟨hw, h.calls_coherent⟩
  calls_grow := List.pairwise_cons.2 ⟨h.grows, h.calls_grow⟩
  grows := List.forall_mem_cons.2 ⟨.refl _, h.grows⟩

/-- **A symbol that is put on the stack was not put there before**: it would still be there, or in
the table. -/
lemma IsRecorded.push (h : w.IsRecorded b) (haccounts : w.Accounts) (hmem : name ∉ w.resolving)
    (hnew : w.resolved[name]? = none) : (w.push name).IsRecorded b where
  pushed_nodup := by
    refine List.nodup_cons.2 ⟨fun hpushed => ?_, h.pushed_nodup⟩
    rcases haccounts name hpushed with hon | hsome
    · exact hmem hon
    · simp [hnew] at hsome
  calls_coherent := h.calls_coherent
  calls_grow := h.calls_grow
  grows := h.grows

lemma IsRecorded.pop (h : w.IsRecorded b) : w.pop.IsRecorded b :=
  ⟨h.pushed_nodup, h.calls_coherent, h.calls_grow, h.grows⟩

lemma IsRecorded.resolve (h : w.IsRecorded b) (hnew : w.resolved[name]? = none) (value : ℚ) :
    (w.resolve name value).IsRecorded b where
  pushed_nodup := h.pushed_nodup
  calls_coherent := h.calls_coherent
  calls_grow := h.calls_grow
  grows := fun call hcall => (h.grows call hcall).trans (Grows.insert (.refl _) hnew value)

lemma Accounts.push (h : w.Accounts) (name : String) : (w.push name).Accounts :=
  List.forall_mem_cons.2 ⟨Or.inl List.mem_cons_self,
    fun other hother => (h other hother).imp_left (List.mem_cons_of_mem name)⟩

/-- The symbol that is taken off the stack enters the table. -/
lemma Accounts.resolve (h : w.Accounts) {path : List String} (hw : w.resolving = name :: path)
    (value : ℚ) : (w.pop.resolve name value).Accounts := by
  intro other hother
  change other ∈ w.resolving.tail ∨ ((w.resolved.insert name value)[other]?).isSome = true
  rw [hw, List.tail_cons, Std.ExtTreeMap.getElem?_insert]
  have hold := h other hother
  rw [hw, List.mem_cons] at hold
  by_cases heq : name = other
  · simp [heq]
  · simp only [Std.compare_eq_iff_eq, heq, if_false]
    exact hold.imp_left fun hmem => hmem.resolve_left (Ne.symm heq)

end Workspace

/-- **Every call finds a stack and a table that fit together, and no symbol is put on the stack
twice**, whether or not there is a value.

**Proof sketch.** Induction along the evaluation. While there is no failure, the symbols that were
put on the stack are there or in the table: a symbol that is taken off enters the table, to which it
is new because symbols on the stack get no values. After a failure nothing more is put on the
stack. -/
lemma isRecorded_evaluateIn (b : Binding) (w : Workspace) (e : Expr)
    (hw : b.Coherent w.resolving w.resolved) (hpath : b.LeadsTo w.resolving e)
    (hrecorded : w.IsRecorded b) (haccounts : w.Accounts) :
    (b.evaluateIn w e).2.1.IsRecorded b ∧
      ∀ value, (b.evaluateIn w e).1 = .ok value → (b.evaluateIn w e).2.1.Accounts := by
  fun_induction Binding.evaluateIn b w e with
  | case1 w value => exact ⟨hrecorded.enter hw _, fun _ _ => haccounts⟩
  | case2 w name hnone => exact ⟨hrecorded.enter hw _, fun _ _ => haccounts⟩
  | case3 w name replacement hget value hvalue =>
    exact ⟨hrecorded.enter hw _, fun _ _ => haccounts⟩
  | case4 w name replacement hget hnew hmem =>
    exact ⟨hrecorded.enter hw _, fun _ _ => haccounts⟩
  | case5 w name replacement hget hnew hmem error w' hw' herror ih =>
    have hcall := ih (hw.push hget hnew hmem) (hpath.replacement hget)
      ((hrecorded.enter hw _).push haccounts hmem hnew) (Workspace.Accounts.push haccounts name)
    rw [herror] at hcall
    exact ⟨hcall.1.pop, fun value hok => by simp at hok⟩
  | case6 w name replacement hget hnew hmem value w' hw' hok ih =>
    have hcall := ih (hw.push hget hnew hmem) (hpath.replacement hget)
      ((hrecorded.enter hw _).push haccounts hmem hnew) (Workspace.Accounts.push haccounts name)
    have hfresh := b.resolved_of_mem_resolving ((w.enter (.symbol name)).push name) replacement
      List.mem_cons_self
    rw [hok] at hcall hfresh
    have hnone : w'.resolved[name]? = none := hfresh.trans hnew
    exact ⟨hcall.1.pop.resolve hnone value, fun _ _ => (hcall.2 value rfl).resolve hw' value⟩
  | case7 w left op right error w' hw' hl ihl =>
    have hleft := ihl hw hpath.left (hrecorded.enter hw _) haccounts
    rw [hl] at hleft
    exact ⟨hleft.1, fun value hok => by simp at hok⟩
  | case8 w left op right x w' hw' hl error w'' hw'' hr ihl ihr =>
    have hleft := ihl hw hpath.left (hrecorded.enter hw _) haccounts
    rw [hl] at hleft
    obtain ⟨hcoherent, hleads⟩ := hw.right hpath hl
    have hright := ihr hcoherent hleads hleft.1 (hleft.2 x rfl)
    rw [hr] at hright
    exact ⟨hright.1, fun value hok => by simp at hok⟩
  | case9 w left op right x w' hw' hl y w'' hw'' hr ihl ihr =>
    have hleft := ihl hw hpath.left (hrecorded.enter hw _) haccounts
    rw [hl] at hleft
    obtain ⟨hcoherent, hleads⟩ := hw.right hpath hl
    have hright := ihr hcoherent hleads hleft.1 (hleft.2 x rfl)
    rw [hr] at hright
    exact ⟨hright.1, fun _ _ => hright.2 y rfl⟩

/-! ## The recorded calls -/

section Calls

variable {b : Binding} {path : List String} {resolved : Resolved}

lemma not_callsInside_constant {value : ℚ} (call : Call) :
    ¬b.CallsInside ⟨path, resolved, .constant value⟩ call := nofun

/-- The only call that is made for a symbol is that for its replacement. -/
lemma callsInside_symbol_iff {name : String} {call : Call} :
    b.CallsInside ⟨path, resolved, .symbol name⟩ call ↔
      ∃ replacement, b.get? name = some replacement ∧ resolved[name]? = none ∧ name ∉ path ∧
        call = ⟨name :: path, resolved, replacement⟩ := by
  constructor
  · rintro ⟨⟩
    exact ⟨_, ‹_›, ‹_›, ‹_›, rfl⟩
  · rintro ⟨replacement, hget, hnew, hmem, rfl⟩
    exact .replacement hget hnew hmem

/-- The calls that are made for a node are those for its operands. -/
lemma callsInside_node_iff {left right : Expr} {op : Operator} {call : Call} :
    b.CallsInside ⟨path, resolved, .node left op right⟩ call ↔
      call = ⟨path, resolved, left⟩ ∨ ∃ x resolved',
        b.evaluateFrom path resolved left = .ok (x, resolved') ∧
          call = ⟨path, resolved', right⟩ := by
  constructor
  · rintro (_ | _ | hleft)
    · exact Or.inl rfl
    · exact Or.inr ⟨_, _, hleft, rfl⟩
  · rintro (rfl | ⟨x, resolved', hleft, rfl⟩)
    · exact .left
    · exact .right hleft

/-- What is called in the end for a symbol that is replaced. -/
lemma reaches_symbol_iff {name : String} {replacement : Expr} {call : Call}
    (hget : b.get? name = some replacement) (hnew : resolved[name]? = none) (hmem : name ∉ path) :
    Relation.ReflTransGen b.CallsInside ⟨path, resolved, .symbol name⟩ call ↔
      call = ⟨path, resolved, .symbol name⟩ ∨
        Relation.ReflTransGen b.CallsInside ⟨name :: path, resolved, replacement⟩ call := by
  rw [Relation.ReflTransGen.cases_head_iff]
  simp [callsInside_symbol_iff, hget, hnew, hmem, eq_comm]

variable {w : Workspace} {left right : Expr} {op : Operator} {call : Call}

/-- What is called in the end for a node whose left operand has no value. -/
lemma reaches_node_iff_of_error {error : ExprError}
    {left' : { w' : Workspace // w'.resolving = w.resolving }}
    (hleft : b.evaluateIn (w.enter (.node left op right)) left = (.error error, left')) :
    Relation.ReflTransGen b.CallsInside ⟨w.resolving, w.resolved, .node left op right⟩ call ↔
      call = ⟨w.resolving, w.resolved, .node left op right⟩ ∨
        Relation.ReflTransGen b.CallsInside ⟨w.resolving, w.resolved, left⟩ call := by
  have hfrom : b.evaluateFrom w.resolving w.resolved left = .error error :=
    (evaluateFrom_eq_map b (w.enter (.node left op right)) left).trans (by rw [hleft]; rfl)
  rw [Relation.ReflTransGen.cases_head_iff]
  simp [callsInside_node_iff, hfrom, eq_comm]

/-- What is called in the end for a node whose left operand has a value. The right one finds the
stack and the table that the left one leaves. -/
lemma reaches_node_iff_of_ok {x : ℚ} {left' : { w' : Workspace // w'.resolving = w.resolving }}
    (hleft : b.evaluateIn (w.enter (.node left op right)) left = (.ok x, left')) :
    Relation.ReflTransGen b.CallsInside ⟨w.resolving, w.resolved, .node left op right⟩ call ↔
      (call = ⟨w.resolving, w.resolved, .node left op right⟩ ∨
        Relation.ReflTransGen b.CallsInside ⟨w.resolving, w.resolved, left⟩ call) ∨
        Relation.ReflTransGen b.CallsInside ⟨left'.1.resolving, left'.1.resolved, right⟩ call := by
  have hfrom : b.evaluateFrom w.resolving w.resolved left = .ok (x, left'.1.resolved) :=
    (evaluateFrom_eq_map b (w.enter (.node left op right)) left).trans (by rw [hleft]; rfl)
  rw [left'.2, Relation.ReflTransGen.cases_head_iff]
  simp [callsInside_node_iff, hfrom, or_and_right, exists_or, or_assoc, eq_comm]

end Calls

/-- **The record has the calls that are made.**

**Proof sketch.** Induction along the evaluation: a call is recorded, and then what it makes. -/
lemma mem_calls_evaluateIn {b : Binding} {w : Workspace} {e : Expr} {call : Call} :
    call ∈ (b.evaluateIn w e).2.1.calls ↔
      call ∈ w.calls ∨ Relation.ReflTransGen b.CallsInside ⟨w.resolving, w.resolved, e⟩ call := by
  fun_induction Binding.evaluateIn b w e with
  | case1 w value =>
    rw [Relation.reflTransGen_iff_eq not_callsInside_constant, Or.comm]
    exact List.mem_cons
  | case2 w name hnone =>
    rw [Relation.reflTransGen_iff_eq (by simp [callsInside_symbol_iff, hnone]), Or.comm]
    exact List.mem_cons
  | case3 w name replacement hget value hvalue =>
    rw [Relation.reflTransGen_iff_eq (by simp [callsInside_symbol_iff, hvalue]), Or.comm]
    exact List.mem_cons
  | case4 w name replacement hget hnew hmem =>
    rw [Relation.reflTransGen_iff_eq (by simp [callsInside_symbol_iff, hmem]), Or.comm]
    exact List.mem_cons
  | case5 w name replacement hget hnew hmem error w' hw' herror ih =>
    rw [herror] at ih
    rw [reaches_symbol_iff hget hnew hmem, or_left_comm, ← or_assoc]
    exact ih.trans (or_congr_left List.mem_cons)
  | case6 w name replacement hget hnew hmem value w' hw' hok ih =>
    rw [hok] at ih
    rw [reaches_symbol_iff hget hnew hmem, or_left_comm, ← or_assoc]
    exact ih.trans (or_congr_left List.mem_cons)
  | case7 w left op right error w' hw' hl ihl =>
    rw [reaches_node_iff_of_error hl, or_left_comm, ← or_assoc]
    rw [hl] at ihl
    exact ihl.trans (or_congr_left List.mem_cons)
  | case8 w left op right x w' hw' hl error w'' hw'' hr ihl ihr =>
    rw [reaches_node_iff_of_ok hl, ← or_assoc, or_left_comm, ← or_assoc]
    rw [hl] at ihl
    rw [hr] at ihr
    exact ihr.trans (or_congr_left (ihl.trans (or_congr_left List.mem_cons)))
  | case9 w left op right x w' hw' hl y w'' hw'' hr ihl ihr =>
    rw [reaches_node_iff_of_ok hl, ← or_assoc, or_left_comm, ← or_assoc]
    rw [hl] at ihl
    rw [hr] at ihr
    exact ihr.trans (or_congr_left (ihl.trans (or_congr_left List.mem_cons)))

/-- The record of an evaluation from the start. -/
lemma isRecorded_start (b : Binding) (e : Expr) :
    (b.evaluateIn .empty e).2.1.IsRecorded b :=
  (b.isRecorded_evaluateIn .empty e
    ⟨.nil, fun _ h => absurd h List.not_mem_nil, fun _ h => absurd h List.not_mem_nil,
      fun _ _ h => by simp [Workspace.empty] at h⟩
    (fun _ h => absurd h List.not_mem_nil)
    ⟨.nil, fun _ h => absurd h List.not_mem_nil, .nil, fun _ h => absurd h List.not_mem_nil⟩
    fun _ h => absurd h List.not_mem_nil).1

end Binding

namespace Expr

/-- **Each symbol is resolved once at most**, for every expression and every binding. Evaluation in
place has the result of evaluation, and its record has the calls that evaluation makes. No symbol is
put on the stack twice, whether or not there is a value. Every call finds distinct symbols on the
stack, all of them bound and none in the table, and the values in the table are those of their
symbols; a later call finds all that an earlier one found. Every evaluation in place, from whatever
stack and table, leaves the stack as it was and takes nothing from the table, also after a failure.

**Proof sketch.** At the start the stack, the table and the record are empty. -/
theorem evaluate_resolves_once (e : Expr) (b : Binding) :
    ((b.evaluateIn .empty e).1 = e.evaluate b ∧
      ∀ call, call ∈ (b.evaluateIn .empty e).2.1.calls ↔
        Relation.ReflTransGen b.CallsInside ⟨[], ∅, e⟩ call) ∧
    (b.evaluateIn .empty e).2.1.pushed.Nodup ∧
    (∀ call ∈ (b.evaluateIn .empty e).2.1.calls,
      call.path.Nodup ∧
      (∀ name ∈ call.path, (b.get? name).isSome = true ∧ call.resolved[name]? = none) ∧
      ∀ name value, call.resolved[name]? = some value → (symbol name).evaluate b = .ok value) ∧
    ((b.evaluateIn .empty e).2.1.calls.Pairwise fun later earlier =>
      Binding.Grows earlier.resolved later.resolved) ∧
    ∀ (w : Binding.Workspace) (inner : Expr),
      (b.evaluateIn w inner).2.1.resolving = w.resolving ∧
      Binding.Grows w.resolved (b.evaluateIn w inner).2.1.resolved ∧
      b.evaluateFrom w.resolving w.resolved inner =
        (b.evaluateIn w inner).1.map fun value =>
          (value, (b.evaluateIn w inner).2.1.resolved) := by
  have hrecorded := b.isRecorded_start e
  refine ⟨⟨?_, fun call => ?_⟩, hrecorded.pushed_nodup, fun call hcall => ?_, hrecorded.calls_grow,
    fun w inner => ⟨(b.evaluateIn w inner).2.2, b.grows_evaluateIn w inner,
      b.evaluateFrom_eq_map w inner⟩⟩
  · have hsame : b.evaluateFrom [] ∅ e = _ := b.evaluateFrom_eq_map .empty e
    rw [evaluate, hsame]
    cases (b.evaluateIn .empty e).1 <;> rfl
  · rw [Binding.mem_calls_evaluateIn]
    exact or_iff_right List.not_mem_nil
  · have hfound := hrecorded.calls_coherent call hcall
    exact ⟨hfound.nodup, fun name hname => ⟨hfound.bound name hname, hfound.unresolved name hname⟩,
      fun name value hvalue => evaluate_eq_ok_iff.2 (hfound.remembers name value hvalue)⟩

/-- With `x` replaced by `3`, the second operand of `x + x` is evaluated with `x` in the table. -/
theorem evaluate_resolves_once_double :
    ⟨[], (∅ : Resolved).insert "x" 3, symbol "x"⟩ ∈ ((Binding.ofList [("x", constant 3)]).evaluateIn
      .empty (node (symbol "x") .add (symbol "x"))).2.1.calls ∧
    (symbol "x").evaluate (.ofList [("x", constant 3)]) = .ok 3 ∧
    ((Binding.ofList [("x", constant 3)]).evaluateIn .empty
      (node (symbol "x") .add (symbol "x"))).2.1.pushed.Nodup := by
  have hget : (Binding.ofList [("x", constant 3)]).get? "x" = some (constant 3) := by
    decide +kernel
  have hleft : (Binding.ofList [("x", constant 3)]).evaluateFrom [] ∅ (symbol "x") =
      .ok (3, (∅ : Resolved).insert "x" 3) := by
    simp [Binding.evaluateFrom_symbol, hget, Binding.evaluateFrom]
  obtain ⟨⟨-, hcalls⟩, hpushed, hfound, -⟩ := evaluate_resolves_once
    (node (symbol "x") .add (symbol "x")) (.ofList [("x", constant 3)])
  have hsecond := (hcalls ⟨[], (∅ : Resolved).insert "x" 3, symbol "x"⟩).2 (.single (.right hleft))
  exact ⟨hsecond, (hfound _ hsecond).2.2 "x" 3 (by simp), hpushed⟩

end Expr

end ExactArith
