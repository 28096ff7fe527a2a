import ExactArith.Linear.Constraint

set_option autoImplicit false
set_option relaxedAutoImplicit false

/-!
# Translating expressions

A *backend* is a language of terms and formulas into which expressions are translated. Its builders
are pure and may refuse any operation or comparison. Expressions are translated node by node,
operands before their operation and left before right, and the first refusal of the backend ends the
translation. A *context* gives each name one variable of the backend: the variable is asked for when
the name is met first and kept for all later translations in the same context, also when the one
that asked for it fails.

## Main definitions

* `ExactArith.Backend` — the builders of a term language.
* `ExactArith.linearBackend` — the language of the built-in solver: terms with their linear forms.
* `ExactArith.Context` — the declared variables, and the calls made to the backend.
* `ExactArith.Context.declare`, `translate`, `constraint` — what can be asked of a context.
* `ExactArith.Refusal` — where a translation stopped, and why.
-/

namespace ExactArith

/-! ## Backends -/

/-- The builders of a language with terms in `τ` and formulas in `φ`. -/
structure Backend (τ φ : Type) where
  /-- What the backend is called in reports. -/
  name : String
  /-- A variable. -/
  var : String → τ
  /-- A number. -/
  lit : Rat → τ
  /-- An operation on two terms. -/
  node : Operator → τ → τ → Except SolverError τ
  /-- A comparison of two terms. -/
  compare : Relation → τ → τ → Except SolverError φ

/-- The language of the built-in solver. It refuses what is not linear as soon as it is built. -/
def linearBackend : Backend LinearTerm Constraint where
  name := "linear-simplex"
  var := LinearTerm.var
  lit := LinearTerm.lit
  node := LinearTerm.node
  compare := fun relation left right => .ok ⟨left.term, relation, right.term⟩

/-! ## Contexts -/

/-- A request to the builders of a backend. -/
inductive Call (τ : Type) where
  /-- For a variable. -/
  | var (name : String)
  /-- For a number. -/
  | lit (value : Rat)
  /-- For an operation. -/
  | node (op : Operator) (left right : τ)
  /-- For a comparison. -/
  | compare (relation : Relation) (left right : τ)
  deriving DecidableEq

/-- The end of a translation that a backend refused. -/
structure Refusal where
  /-- The backend's reason. -/
  error : SolverError
  /-- The operation that was refused, or nothing if it was the comparison of the two sides. -/
  node? : Option Expr

/-- The state of the translations into one backend. -/
structure Context (τ : Type) where
  /-- The variables asked for so far, by name. -/
  declared : Std.ExtTreeMap String τ compare
  /-- The calls made so far, the latest first. -/
  history : List (Call τ)

namespace Context

variable {τ φ : Type}

/-- The context of no translation. -/
def empty : Context τ := ⟨∅, []⟩

instance : EmptyCollection (Context τ) := ⟨empty⟩

/-- Whether a name has a variable. -/
def isDeclared (ctx : Context τ) (name : String) : Bool := ctx.declared.contains name

/-- The number of variables. -/
def size (ctx : Context τ) : Nat := ctx.declared.size

/-- Whether there is no variable. -/
def isEmpty (ctx : Context τ) : Bool := ctx.declared.isEmpty

/-- Notes a call. -/
def note (ctx : Context τ) (call : Call τ) : Context τ :=
  { ctx with history := call :: ctx.history }

/-- The variable of a name, declared now if the name is new. -/
def declare (backend : Backend τ φ) (name : String) (ctx : Context τ) : τ × Context τ :=
  match ctx.declared[name]? with
  | some term => (term, ctx)
  | none =>
    let term := backend.var name
    (term, { ctx.note (.var name) with declared := ctx.declared.insert name term })

/-- Translates an expression. -/
def translate (backend : Backend τ φ) : Expr → Context τ → Except Refusal τ × Context τ
  | .symbol name, ctx =>
    let (term, ctx) := ctx.declare backend name
    (.ok term, ctx)
  | .constant value, ctx => (.ok (backend.lit value), ctx.note (.lit value))
  | .node left op right, ctx =>
    match translate backend left ctx with
    | (.error refusal, ctx) => (.error refusal, ctx)
    | (.ok x, ctx) =>
      match translate backend right ctx with
      | (.error refusal, ctx) => (.error refusal, ctx)
      | (.ok y, ctx) =>
        ((backend.node op x y).mapError fun error => ⟨error, some (.node left op right)⟩,
          ctx.note (.node op x y))

/-- Translates the comparison of two expressions: the left side, the right side, the comparison. -/
def constraint (backend : Backend τ φ) (left : Expr) (relation : Relation) (right : Expr)
    (ctx : Context τ) : Except Refusal φ × Context τ :=
  match translate backend left ctx with
  | (.error refusal, ctx) => (.error refusal, ctx)
  | (.ok x, ctx) =>
    match translate backend right ctx with
    | (.error refusal, ctx) => (.error refusal, ctx)
    | (.ok y, ctx) =>
      ((backend.compare relation x y).mapError fun error => ⟨error, none⟩,
        ctx.note (.compare relation x y))

end Context

end ExactArith
