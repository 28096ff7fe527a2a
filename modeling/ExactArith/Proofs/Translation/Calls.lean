import ExactArith.Proofs.Translation.Linear
import Mathlib.Data.List.Induction

set_option autoImplicit false
set_option relaxedAutoImplicit false

/-!
# The calls that translations make

Without a context, a translation is a fold over the tree that asks the backend for each subtree in
turn, operands before their operation and left before right, until the backend refuses. A context
does to its backend just what this fold does, except that it leaves out the requests for variables
that it has. That holds for any backend and after any requests, those that were refused included: a
refused request keeps the variables that it declared, and nothing else of it matters later on.

## Main definitions

* `ExactArith.Context.Stage` — the work on one subtree, or on the comparison of two sides.
* `ExactArith.Context.visited` — the stages up to the first one that is refused.
* `ExactArith.Context.Request.calls`, `ExactArith.Context.Request.answer` — the calls and the answer
  of a request without a context.
* `ExactArith.Context.serve` — what a context does about a call.
* `ExactArith.Context.newCalls` — the calls that are left when those for known variables are left
  out.

## Main results

* `ExactArith.Expr.build_cases` — an expression is built exactly when no stage of it is refused.
* `ExactArith.Context.perform_eq_foldl` — a request serves its calls one after the other.
* `ExactArith.Context.history_foldl_serve`, `ExactArith.Context.isDeclared_foldl_serve` — what
  served calls leave in a context.
* `ExactArith.Context.asksOnce_after` — no name is asked for twice.
* `ExactArith.Context.answer_after_eq_plain` — a context translates as the plain fold does.
-/

namespace ExactArith

open Context

variable {τ φ : Type}

/-! ## Stages -/

/-- Whether a backend refuses a call. -/
def Call.isRefused (backend : Backend τ φ) : Call τ → Bool
  | .var _ | .lit _ => false
  | .node op x y => !(backend.node op x y).isOk
  | .compare relation x y => !(backend.compare relation x y).isOk

/-- The name of a call for a variable. -/
def Call.name? : Call τ → Option String
  | .var name => some name
  | _ => none

namespace Context

/-- A stage of a request. -/
inductive Stage where
  /-- The work on the root of a subtree. -/
  | build (e : Expr)
  /-- The work on the comparison of two sides. -/
  | compare (left : Expr) (relation : Relation) (right : Expr)

/-- The call of a stage, which there is when the operands can be built. -/
def Stage.call? (backend : Backend τ φ) : Stage → Option (Call τ)
  | .build (.symbol name) => some (.var name)
  | .build (.constant value) => some (.lit value)
  | .build (.node left op right) =>
    match left.build backend, right.build backend with
    | .ok x, .ok y => some (.node op x y)
    | _, _ => none
  | .compare left relation right =>
    match left.build backend, right.build backend with
    | .ok x, .ok y => some (.compare relation x y)
    | _, _ => none

/-- Whether a backend refuses the call of a stage. -/
def Stage.isRefused (backend : Backend τ φ) (stage : Stage) : Bool :=
  (stage.call? backend).any (Call.isRefused backend)

/-- The stages up to the first one that is refused, this one included. -/
def visited (backend : Backend τ φ) (stages : List Stage) : List Stage :=
  stages.take (stages.findIdx (Stage.isRefused backend) + 1)

end Context

/-- The stages of an expression: left operand, right operand, operation. -/
def Expr.stages : Expr → List Stage
  | .symbol name => [.build (.symbol name)]
  | .constant value => [.build (.constant value)]
  | .node left op right => left.stages ++ right.stages ++ [.build (.node left op right)]

namespace Context

/-- The stages of a request: left side, right side, comparison. -/
def Request.stages : Request → List Stage
  | .declare name => [.build (.symbol name)]
  | .translate e => e.stages
  | .constraint left relation right =>
    left.stages ++ right.stages ++ [.compare left relation right]

/-- The calls of a request without a context. -/
def Request.calls (backend : Backend τ φ) (request : Request) : List (Call τ) :=
  (visited backend request.stages).filterMap (Stage.call? backend)

/-- What is given for a request. -/
inductive Answer (τ φ : Type) where
  /-- For a variable or an expression. -/
  | term (result : Except Refusal τ)
  /-- For a comparison. -/
  | formula (result : Except Refusal φ)

/-- The answer to a request without a context. -/
def Request.answer (backend : Backend τ φ) : Request → Answer τ φ
  | .declare name => .term (.ok (backend.var name))
  | .translate e => .term (e.build backend)
  | .constraint left relation right => .formula (left.buildConstraint backend relation right)

/-- The answer of a context to a request. -/
def answer (backend : Backend τ φ) (ctx : Context τ) : Request → Answer τ φ
  | .declare name => .term (.ok (ctx.declare backend name).1)
  | .translate e => .term (ctx.translate backend e).1
  | .constraint left relation right => .formula (ctx.constraint backend left relation right).1

variable {backend : Backend τ φ}

/-- After stages that are not refused, the visit goes on. -/
lemma visited_append_of_forall {before after : List Stage}
    (h : ∀ stage ∈ before, stage.isRefused backend = false) :
    visited backend (before ++ after) = before ++ visited backend after := by
  have hlength : before.findIdx (Stage.isRefused backend) = before.length :=
    List.findIdx_eq_length.2 h
  rw [visited, visited, List.findIdx_append, hlength, if_neg (lt_irrefl _),
    Nat.add_comm _ before.length, Nat.add_assoc, List.take_length_add_append]

/-- A stage that is refused ends the visit. -/
lemma visited_append_of_exists {before after : List Stage}
    (h : ∃ stage ∈ before, stage.isRefused backend = true) :
    visited backend (before ++ after) = visited backend before := by
  have hlength : before.findIdx (Stage.isRefused backend) < before.length :=
    List.findIdx_lt_length.2 h
  rw [visited, visited, List.findIdx_append, if_pos hlength, List.take_append_of_le_length hlength]

lemma visited_of_forall {stages : List Stage}
    (h : ∀ stage ∈ stages, stage.isRefused backend = false) : visited backend stages = stages := by
  have happend : visited backend (stages ++ []) = stages ++ visited backend [] :=
    visited_append_of_forall h
  have hnil : visited backend ([] : List Stage) = [] := rfl
  rwa [List.append_nil, hnil, List.append_nil] at happend

end Context

/-! ## Visits of expressions -/

variable {backend : Backend τ φ}

/-- **An expression is built exactly when no stage of it is refused.**

**Proof sketch.** Induction on the expression. An operation whose operands are built makes its call,
and it is built unless this call is refused. -/
lemma Expr.build_cases (backend : Backend τ φ) (e : Expr) :
    (∃ x, e.build backend = .ok x ∧ ∀ stage ∈ e.stages, stage.isRefused backend = false) ∨
      ∃ refusal, e.build backend = .error refusal ∧
        ∃ stage ∈ e.stages, stage.isRefused backend = true := by
  induction e with
  | symbol name =>
    exact Or.inl ⟨_, rfl, by simp [stages, Stage.isRefused, Stage.call?, Call.isRefused]⟩
  | constant value =>
    exact Or.inl ⟨_, rfl, by simp [stages, Stage.isRefused, Stage.call?, Call.isRefused]⟩
  | node left op right ihl ihr =>
    rw [build, stages]
    rcases ihl with ⟨x, hx, hleft⟩ | ⟨refusal, hx, stage, hmem, hrefused⟩
    · rcases ihr with ⟨y, hy, hright⟩ | ⟨refusal, hy, stage, hmem, hrefused⟩
      · have hcall : (Stage.build (.node left op right)).isRefused backend =
            !(backend.node op x y).isOk := by
          simp [Stage.isRefused, Stage.call?, hx, hy, Call.isRefused]
        rw [hx, hy]
        dsimp only
        cases hnode : backend.node op x y with
        | ok z =>
          refine Or.inl ⟨z, rfl, ?_⟩
          simp only [List.mem_append, List.mem_singleton]
          rintro stage ((hmem | hmem) | rfl)
          · exact hleft stage hmem
          · exact hright stage hmem
          · rw [hcall, hnode]
            rfl
        | error error =>
          refine Or.inr ⟨_, rfl, .build (.node left op right), by simp, ?_⟩
          rw [hcall, hnode]
          rfl
      · rw [hx, hy]
        exact Or.inr ⟨refusal, rfl, stage, by simp [hmem], hrefused⟩
    · rw [hx]
      exact Or.inr ⟨refusal, rfl, stage, by simp [hmem], hrefused⟩

namespace Context

section Sides

variable {left right : Expr} {last : Stage} {refusal : Refusal} {x y : τ}

lemma visited_stages_of_ok (h : left.build backend = .ok x) :
    visited backend left.stages = left.stages ∧
      ∀ after, visited backend (left.stages ++ after) = left.stages ++ visited backend after := by
  rcases left.build_cases backend with ⟨-, -, hall⟩ | ⟨refusal, hbuild, -⟩
  · exact ⟨visited_of_forall hall, fun after => visited_append_of_forall hall⟩
  · simp [h] at hbuild

lemma visited_stages_of_error (h : left.build backend = .error refusal) (after : List Stage) :
    visited backend (left.stages ++ after) = visited backend left.stages := by
  rcases left.build_cases backend with ⟨x, hbuild, -⟩ | ⟨-, -, hex⟩
  · simp [h] at hbuild
  · exact visited_append_of_exists hex

/-- If the left side is refused, nothing else is visited. -/
lemma visited_of_left_error (h : left.build backend = .error refusal) :
    visited backend (left.stages ++ right.stages ++ [last]) = visited backend left.stages := by
  rw [List.append_assoc, visited_stages_of_error h]

/-- If the right side is refused, both sides are visited. -/
lemma visited_of_right_error (hl : left.build backend = .ok x)
    (hr : right.build backend = .error refusal) :
    visited backend (left.stages ++ right.stages ++ [last]) =
      visited backend left.stages ++ visited backend right.stages := by
  obtain ⟨hleft, happend⟩ := visited_stages_of_ok hl
  rw [List.append_assoc, happend, hleft, visited_stages_of_error hr]

/-- If neither side is refused, both are visited and what joins them too. -/
lemma visited_of_ok (hl : left.build backend = .ok x) (hr : right.build backend = .ok y) :
    visited backend (left.stages ++ right.stages ++ [last]) =
      visited backend left.stages ++ visited backend right.stages ++ [last] := by
  obtain ⟨hleft, happend⟩ := visited_stages_of_ok hl
  obtain ⟨hright, happend'⟩ := visited_stages_of_ok hr
  have hlast : visited backend [last] = [last] := by
    cases h : last.isRefused backend <;> simp [visited, List.findIdx_cons, h]
  rw [List.append_assoc, happend, happend', hleft, hright, hlast, List.append_assoc]

/-- Each visited stage makes a call, if the last one does once both sides are built. -/
lemma isSome_call?_of_sides
    (hl : ∀ stage ∈ visited backend left.stages, (stage.call? backend).isSome = true)
    (hr : ∀ stage ∈ visited backend right.stages, (stage.call? backend).isSome = true)
    (hlast : ∀ x y, left.build backend = .ok x → right.build backend = .ok y →
      (last.call? backend).isSome = true) :
    ∀ stage ∈ visited backend (left.stages ++ right.stages ++ [last]),
      (stage.call? backend).isSome = true := by
  cases hx : left.build backend with
  | error refusal => rwa [visited_of_left_error hx]
  | ok x =>
    cases hy : right.build backend with
    | error refusal =>
      rw [visited_of_right_error hx hy]
      exact List.forall_mem_append.2 ⟨hl, hr⟩
    | ok y =>
      rw [visited_of_ok hx hy]
      exact List.forall_mem_append.2
        ⟨List.forall_mem_append.2 ⟨hl, hr⟩, List.forall_mem_singleton.2 (hlast x y hx hy)⟩

end Sides

/-- **Each visited stage of an expression makes a call.** -/
lemma isSome_call?_of_mem_stages (e : Expr) :
    ∀ stage ∈ visited backend e.stages, (stage.call? backend).isSome = true := by
  induction e with
  | symbol name => simp [Expr.stages, visited, Stage.call?]
  | constant value => simp [Expr.stages, visited, Stage.call?]
  | node left op right ihl ihr =>
    refine isSome_call?_of_sides ihl ihr fun x y hx hy => ?_
    rw [Stage.call?, hx, hy]
    rfl

lemma isSome_call?_of_mem_visited (request : Request) :
    ∀ stage ∈ visited backend request.stages, (stage.call? backend).isSome = true := by
  cases request with
  | declare name => exact isSome_call?_of_mem_stages (.symbol name)
  | translate e => exact isSome_call?_of_mem_stages e
  | constraint left relation right =>
    refine isSome_call?_of_sides (isSome_call?_of_mem_stages left)
      (isSome_call?_of_mem_stages right) fun x y hx hy => ?_
    rw [Stage.call?, hx, hy]
    rfl

/-- The calls of a request are those of its visited stages, one for each. -/
lemma map_some_calls (backend : Backend τ φ) (request : Request) :
    (request.calls backend).map some =
      (visited backend request.stages).map (Stage.call? backend) := by
  have hcalls : ∀ stage ∈ visited backend request.stages, (stage.call? backend).isSome = true :=
    isSome_call?_of_mem_visited request
  rw [Request.calls]
  generalize visited backend request.stages = stages at hcalls ⊢
  induction stages with
  | nil => rfl
  | cons stage stages ih =>
    obtain ⟨hstage, hstages⟩ := List.forall_mem_cons.1 hcalls
    obtain ⟨call, hcall⟩ := Option.isSome_iff_exists.1 hstage
    rw [List.filterMap_cons_some hcall, List.map_cons, List.map_cons, ih hstages, hcall]

/-! ## A context serves the calls -/

/-- What a context does about a call: a variable is declared, and any other call is passed on. -/
def serve (backend : Backend τ φ) (ctx : Context τ) : Call τ → Context τ
  | .var name => (ctx.declare backend name).2
  | call => ctx.note call

variable {ctx : Context τ}

/-- The translation of two sides, and of what joins them. -/
def translateSides {ρ : Type} (backend : Backend τ φ) (left right : Expr)
    (join : τ → τ → Except Refusal ρ) (call : τ → τ → Call τ) (ctx : Context τ) :
    Except Refusal ρ × Context τ :=
  match ctx.translate backend left with
  | (.error refusal, ctx) => (.error refusal, ctx)
  | (.ok x, ctx) =>
    match ctx.translate backend right with
    | (.error refusal, ctx) => (.error refusal, ctx)
    | (.ok y, ctx) => (join x y, ctx.note (call x y))

lemma translate_node (ctx : Context τ) (left right : Expr) (op : Operator) :
    ctx.translate backend (.node left op right) = translateSides backend left right
      (fun x y => (backend.node op x y).mapError fun error => ⟨error, some (.node left op right)⟩)
      (.node op) ctx := rfl

lemma constraint_eq_translateSides (ctx : Context τ) (left right : Expr) (relation : Relation) :
    ctx.constraint backend left relation right = translateSides backend left right
      (fun x y => (backend.compare relation x y).mapError fun error => ⟨error, none⟩)
      (.compare relation) ctx := rfl

/-- A translation of an expression serves the calls of its visited stages. -/
def ServesStages (backend : Backend τ φ) (e : Expr) : Prop :=
  ∀ ctx : Context τ, ctx.DeclaresVars backend → (ctx.translate backend e).2 =
    ((visited backend e.stages).filterMap (Stage.call? backend)).foldl (serve backend) ctx

/-- If the translations of both sides serve the calls of the visited stages, then so does the
translation of the two together. -/
lemma translateSides_snd {ρ : Type} {left right : Expr} {join : τ → τ → Except Refusal ρ}
    {call : τ → τ → Call τ} {last : Stage} (hl : ServesStages backend left)
    (hr : ServesStages backend right)
    (hlast : ∀ x y, left.build backend = .ok x → right.build backend = .ok y →
      last.call? backend = some (call x y) ∧
        ∀ ctx, serve backend ctx (call x y) = ctx.note (call x y))
    {ctx : Context τ} (h : ctx.DeclaresVars backend) :
    (translateSides backend left right join call ctx).2 =
      ((visited backend (left.stages ++ right.stages ++ [last])).filterMap
        (Stage.call? backend)).foldl (serve backend) ctx := by
  -- what a side gives is what is built without a context, so it is refused in the same places
  obtain ⟨ctx', heq, hnext⟩ := h.translate left
  have hctx' := hl ctx h
  rw [heq] at hctx'
  rw [translateSides, heq]
  cases hx : left.build backend with
  | error refusal => rw [visited_of_left_error hx, ← hctx']
  | ok x =>
    obtain ⟨ctx'', heq', -⟩ := hnext.translate right
    have hctx'' := hr ctx' hnext
    rw [heq'] at hctx''
    dsimp only
    rw [heq']
    cases hy : right.build backend with
    | error refusal =>
      rw [visited_of_right_error hx hy, List.filterMap_append, List.foldl_append, ← hctx', ← hctx'']
    | ok y =>
      obtain ⟨hcall, hserve⟩ := hlast x y hx hy
      rw [visited_of_ok hx hy, List.filterMap_append, List.filterMap_append, List.foldl_append,
        List.foldl_append, ← hctx', ← hctx'', List.filterMap_cons_some hcall]
      exact (hserve ctx'').symm

/-- **A translation serves the calls of the visited stages, one after the other.** -/
lemma servesStages (backend : Backend τ φ) (e : Expr) : ServesStages backend e := by
  induction e with
  | symbol name => exact fun ctx _ => rfl
  | constant value => exact fun ctx _ => rfl
  | node left op right ihl ihr =>
    intro ctx h
    rw [translate_node]
    refine translateSides_snd ihl ihr (fun x y hx hy => ⟨?_, fun _ => rfl⟩) h
    rw [Stage.call?, hx, hy]

/-- **A request serves its calls, one after the other.** -/
lemma perform_eq_foldl (h : ctx.DeclaresVars backend) (request : Request) :
    ctx.perform backend request = (request.calls backend).foldl (serve backend) ctx := by
  cases request with
  | declare name => rfl
  | translate e => exact servesStages backend e ctx h
  | constraint left relation right =>
    rw [perform, constraint_eq_translateSides]
    refine translateSides_snd (servesStages backend left) (servesStages backend right)
      (fun x y hx hy => ⟨?_, fun _ => rfl⟩) h
    rw [Stage.call?, hx, hy]

/-! ## What served calls leave -/

/-- The calls that are left of a list when those for known variables are left out. A variable is
known from its first call on. -/
def newCalls (known : String → Bool) : List (Call τ) → List (Call τ)
  | [] => []
  | .var name :: calls =>
    if known name then newCalls known calls
    else .var name :: newCalls (fun other => known other || name == other) calls
  | call :: calls => call :: newCalls known calls

/-- After its declaration a name is declared, and the others are as before. -/
lemma isDeclared_declare (ctx : Context τ) (name other : String) :
    (ctx.declare backend name).2.isDeclared other = (ctx.isDeclared other || name == other) := by
  rw [declare]
  split
  · next term hterm =>
    by_cases hname : name = other
    · subst hname
      have hmem : ctx.isDeclared name = true := by
        rw [isDeclared, Std.ExtTreeMap.contains_eq_isSome_getElem?, hterm]
        rfl
      rw [hmem, Bool.true_or]
    · simp [hname]
  · rw [Bool.eq_iff_iff]
    simp [isDeclared, Std.ExtTreeMap.contains_insert, or_comm]

/-- A declaration makes a call if the name is new. -/
lemma history_declare (ctx : Context τ) (name : String) :
    (ctx.declare backend name).2.history =
      if ctx.isDeclared name then ctx.history else .var name :: ctx.history := by
  rw [declare, isDeclared, Std.ExtTreeMap.contains_eq_isSome_getElem?]
  cases ctx.declared[name]? <;> rfl

lemma isDeclared_serve (ctx : Context τ) (call : Call τ) (name : String) :
    (serve backend ctx call).isDeclared name = true ↔
      ctx.isDeclared name = true ∨ call = .var name := by
  cases call with
  | var other => simp [serve, isDeclared_declare]
  | lit | node | compare => simp [serve, note, isDeclared]

/-- **The names that are declared after calls are those from before and those of the calls for
variables.** -/
lemma isDeclared_foldl_serve (ctx : Context τ) (calls : List (Call τ)) (name : String) :
    (calls.foldl (serve backend) ctx).isDeclared name = true ↔
      ctx.isDeclared name = true ∨ .var name ∈ calls := by
  induction calls generalizing ctx with
  | nil => simp
  | cons call calls ih =>
    rw [List.foldl_cons, ih, isDeclared_serve, List.mem_cons, or_assoc, @eq_comm _ call]

/-- **Served calls are made in their order, without those for declared variables.**

**Proof sketch.** Induction on the calls, for all contexts. A call for a variable makes its name
declared and leaves the others as they are, which is what becomes known by it. -/
lemma history_foldl_serve (ctx : Context τ) (calls : List (Call τ)) :
    (calls.foldl (serve backend) ctx).history.reverse =
      ctx.history.reverse ++ newCalls ctx.isDeclared calls := by
  induction calls generalizing ctx with
  | nil => simp [newCalls]
  | cons call calls ih =>
    rw [List.foldl_cons, ih]
    cases call with
    | var name =>
      have hknown : (serve backend ctx (.var name)).isDeclared =
          fun other => ctx.isDeclared other || name == other :=
        funext fun other => isDeclared_declare ctx name other
      rw [hknown, serve, history_declare, newCalls]
      split
      · next hname =>
        have hsame : (fun other => ctx.isDeclared other || name == other) = ctx.isDeclared := by
          funext other
          by_cases hother : name = other
          · rw [← hother, hname, Bool.true_or]
          · simp [hother]
        rw [hsame]
      · simp
    | lit | node | compare =>
      simp only [serve, note, newCalls, List.reverse_cons, List.append_assoc, List.singleton_append]
      rfl

/-- No name has been asked for twice, and each one that has been asked for is declared. -/
def AsksOnce (ctx : Context τ) : Prop :=
  (ctx.history.filterMap Call.name?).Nodup ∧
    ∀ name ∈ ctx.history.filterMap Call.name?, ctx.isDeclared name = true

/-- A call for a variable is made only if its name is new, so none was made for it before. -/
lemma AsksOnce.serve (h : ctx.AsksOnce) (call : Call τ) : (serve backend ctx call).AsksOnce := by
  obtain ⟨hnodup, hdeclared⟩ := h
  cases call with
  | var name =>
    have hkept : ∀ other ∈ ctx.history.filterMap Call.name?,
        (Context.serve backend ctx (.var name)).isDeclared other = true :=
      fun other hother => (isDeclared_serve ctx _ other).2 (Or.inl (hdeclared other hother))
    rw [AsksOnce, Context.serve, history_declare]
    split
    · exact ⟨hnodup, hkept⟩
    · next hname =>
      rw [List.filterMap_cons_some (rfl : Call.name? (Call.var name) = some name)]
      refine ⟨List.nodup_cons.2 ⟨fun hmem => hname (hdeclared name hmem), hnodup⟩, ?_⟩
      exact List.forall_mem_cons.2 ⟨(isDeclared_serve ctx _ name).2 (Or.inr rfl), hkept⟩
  | lit | node | compare => exact ⟨hnodup, hdeclared⟩

lemma AsksOnce.perform (h : ctx.AsksOnce) (hvars : ctx.DeclaresVars backend) (request : Request) :
    (ctx.perform backend request).AsksOnce := by
  rw [perform_eq_foldl hvars]
  exact List.foldlRecOn _ _ h fun ctx h call _ => h.serve call

/-- **No name is asked for twice, whatever the requests.** -/
lemma asksOnce_after (backend : Backend τ φ) (requests : List Request) :
    (after backend requests).AsksOnce := by
  induction requests using List.reverseRecOn with
  | nil => exact ⟨List.nodup_nil, List.forall_mem_nil _⟩
  | append_singleton requests request ih =>
    rw [after, List.foldl_concat]
    exact ih.perform (declaresVars_after backend requests) request

/-- What a context gives for a request is what is given without a context. -/
lemma answer_after (backend : Backend τ φ) (requests : List Request) (request : Request) :
    (after backend requests).answer backend request = request.answer backend := by
  cases request with
  | declare name =>
    rw [answer, Request.answer, ((declaresVars_after backend requests).declare name).1]
  | translate e => rw [answer, Request.answer, translate_after]
  | constraint left relation right => rw [answer, Request.answer, constraint_after]

/-- A variable is asked for by the stage of its symbol, and by no other. -/
lemma var_mem_calls_iff (backend : Backend τ φ) (request : Request) (name : String) :
    .var name ∈ request.calls backend ↔
      Stage.build (.symbol name) ∈ visited backend request.stages := by
  rw [Request.calls, List.mem_filterMap]
  refine ⟨?_, fun hmem => ⟨_, hmem, rfl⟩⟩
  rintro ⟨stage, hmem, hcall⟩
  suffices hstage : stage = .build (.symbol name) by rwa [← hstage]
  revert hcall
  fun_cases Stage.call? backend stage <;> simp_all

/-- **A context translates as the plain fold over the tree does**, for any backend and after any
requests, refused ones included. What it gives for a request is what is given without a context. It
makes one call for each stage up to the first one that is refused, in the order of the stages,
without the calls for variables that are declared, so that it never asks for a name twice. The names
that are then declared are those from before and the symbols among these stages.

**Proof sketch.** The context serves the calls of the request one after the other. This keeps two
invariants: each declared name has the variable of the backend, and each name that was asked for is
declared. By the first one, the operands are refused in the same places as without a context. -/
theorem answer_after_eq_plain (backend : Backend τ φ) (requests : List Request)
    (request : Request) :
    let ctx := after backend requests
    let next := after backend (requests ++ [request])
    ctx.answer backend request = request.answer backend ∧
      next.history.reverse =
        ctx.history.reverse ++ newCalls ctx.isDeclared (request.calls backend) ∧
      (request.calls backend).map some =
        (visited backend request.stages).map (Stage.call? backend) ∧
      (next.history.filterMap Call.name?).Nodup ∧
      ∀ name, next.isDeclared name = true ↔ ctx.isDeclared name = true ∨
        Stage.build (.symbol name) ∈ visited backend request.stages := by
  intro ctx next
  have hnext : next = (request.calls backend).foldl (serve backend) ctx := by
    rw [← perform_eq_foldl (declaresVars_after backend requests)]
    exact List.foldl_concat _ _ _ _
  refine ⟨answer_after backend requests request, ?_, map_some_calls backend request,
    (asksOnce_after backend _).1, fun name => ?_⟩
  · rw [hnext, history_foldl_serve]
  · rw [hnext, isDeclared_foldl_serve, var_mem_calls_iff]

end Context

end ExactArith
