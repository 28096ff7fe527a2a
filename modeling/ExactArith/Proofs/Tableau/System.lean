import ExactArith.Proofs.Linear.Combination
import ExactArith.Proofs.SortedMap
import ExactArith.Proofs.Tableau.DeltaRat

set_option autoImplicit false
set_option relaxedAutoImplicit false

/-!
# The system that a tableau stands for

A tableau describes points: values of its variables in which each slack has the value of the
combination that it stands for. A point is determined by values of the names, and the bounds of the
tableau select some of the points. The rows are a second description of the same points, which the
search rewrites.

## Main definitions

* `ExactArith.Tableau.SolvesSlacks`, `ExactArith.Tableau.SolvesRows` — the points by the slacks and
  by the rows.
* `ExactArith.Tableau.IsPoint` — the points for given values of the names.
* `ExactArith.Tableau.Meets` — a point is within all bounds.
* `ExactArith.Tableau.Allows` — the bounds admit values of the names.
* `ExactArith.Relation.Admits` — the pairs that a comparison with a number lets a variable have.
* `ExactArith.Tableau.HasLayout` — what holds of the names, slacks and bounds of a tableau.

## Main results

* `ExactArith.Tableau.HasLayout.exists_point` — values of the names extend to a point.
* `ExactArith.Tableau.HasLayout.allows_iff_meets` — whether the bounds admit values of the names can
  be seen on any point for them.
* `ExactArith.Tableau.meets_bound` — a bound is one more condition on a point.
* `ExactArith.Relation.admits_ofRat` — on rational numbers, admitting is comparing.
-/

namespace ExactArith

/-! ## Comparisons as bounds -/

/-- The pairs that are left to a variable by the comparison with a number: a strict comparison keeps
an infinitesimal distance. -/
def Relation.Admits (relation : Relation) (b : ℚ) (v : DeltaRat) : Prop :=
  match relation with
  | .eq => (⟨b, 0⟩ : DeltaRat) ≤ v ∧ v ≤ ⟨b, 0⟩
  | .le => v ≤ ⟨b, 0⟩
  | .lt => v ≤ ⟨b, -1⟩
  | .ge => (⟨b, 0⟩ : DeltaRat) ≤ v
  | .gt => (⟨b, 1⟩ : DeltaRat) ≤ v

/-- A rational number is admitted exactly when it compares in the given way. -/
lemma Relation.admits_ofRat (relation : Relation) (b q : ℚ) :
    relation.Admits b (DeltaRat.ofRat q) ↔ relation.holds q b = true := by
  have hle : (⟨b, 0⟩ : DeltaRat) ≤ DeltaRat.ofRat q ↔ b ≤ q := DeltaRat.ofRat_le_ofRat
  have hge : DeltaRat.ofRat q ≤ (⟨b, 0⟩ : DeltaRat) ↔ q ≤ b := DeltaRat.ofRat_le_ofRat
  cases relation with
  | eq => rw [Admits, hle, hge, holds, beq_iff_eq, and_comm, le_antisymm_iff]
  | le => rw [Admits, hge, holds, decide_eq_true_iff]
  | lt => simp [Admits, holds, DeltaRat.le_iff]
  | ge => rw [Admits, hle, holds, decide_eq_true_iff]
  | gt => simp [Admits, holds, DeltaRat.le_iff]

namespace Tableau

/-! ## Points -/

section Points

variable {V W : Type} [AddCommGroup V] [Module ℚ V] [AddCommGroup W] [Module ℚ W]

/-- Each slack has the value of the combination that it stands for. -/
def SolvesSlacks (t : Tableau) (x : ℕ → V) : Prop :=
  ∀ row k, (row, k) ∈ t.slacks → x k = row.eval x

/-- Each basic variable has the value of its row. -/
def SolvesRows (t : Tableau) (x : ℕ → V) : Prop :=
  ∀ (k : ℕ) row, t.rows[k]? = some row → x k = row.eval x

/-- The values of the variables of a tableau for given values of the names. -/
structure IsPoint (t : Tableau) (σ : String → V) (x : ℕ → V) : Prop where
  /-- A problem variable has the value of its name. -/
  number : ∀ (name : String) k, t.numbers[name]? = some k → x k = σ name
  /-- A slack has the value of its combination. -/
  slack : t.SolvesSlacks x

lemma SolvesSlacks.map {t : Tableau} {x : ℕ → V} (h : t.SolvesSlacks x) (f : V →ₗ[ℚ] W) :
    t.SolvesSlacks fun k => f (x k) := by
  intro row k hk
  change f (x k) = _
  rw [h row k hk, LinComb.map_eval]

/-- The value of a combination at the values of a tableau is computed part by part. -/
lemma rowValue_eq_eval (t : Tableau) (row : LinComb ℕ) : t.rowValue row = row.eval t.value := by
  let real : DeltaRat →ₗ[ℚ] ℚ := ⟨⟨DeltaRat.real, fun _ _ => rfl⟩, fun _ _ => rfl⟩
  let delta : DeltaRat →ₗ[ℚ] ℚ := ⟨⟨DeltaRat.delta, fun _ _ => rfl⟩, fun _ _ => rfl⟩
  ext
  · exact (LinComb.value_eq_eval row _).trans (LinComb.map_eval real row t.value).symm
  · exact (LinComb.value_eq_eval row _).trans (LinComb.map_eval delta row t.value).symm

end Points

/-! ## Bounds -/

/-- A value lies within the bounds of a variable. -/
def InBounds (t : Tableau) (k : ℕ) (v : DeltaRat) : Prop :=
  (∀ b, t.lower[k]? = some b → b ≤ v) ∧ ∀ b, t.upper[k]? = some b → v ≤ b

/-- Every variable is within its bounds. -/
def Meets (t : Tableau) (x : ℕ → DeltaRat) : Prop := ∀ k, t.InBounds k (x k)

/-- The point for given values of the names is within all bounds. -/
def Allows (t : Tableau) (σ : String → DeltaRat) : Prop := ∃ x, t.IsPoint σ x ∧ t.Meets x

/-- What all bounds of `m` ask for, and one more bound at `k` that is as strict as the old one. -/
lemma forall_insert_iff {m : Std.ExtTreeMap ℕ DeltaRat compare} {k : ℕ} {b : DeltaRat}
    {p : ℕ → DeltaRat → Prop} (h : ∀ c, m[k]? = some c → p k b → p k c) :
    (∀ (j : ℕ) c, (m.insert k b)[j]? = some c → p j c) ↔
      (∀ (j : ℕ) c, m[j]? = some c → p j c) ∧ p k b := by
  simp only [SortedMap.getElem?_insert_eq_some_iff]
  refine ⟨fun hall => ⟨fun j c hj => ?_, hall k b (Or.inl ⟨rfl, rfl⟩)⟩, fun ⟨hall, hb⟩ j c hj => ?_⟩
  · by_cases hk : k = j
    · subst hk
      exact h c hj (hall k b (Or.inl ⟨rfl, rfl⟩))
    · exact hall j c (Or.inr ⟨hk, hj⟩)
  · rcases hj with ⟨rfl, rfl⟩ | ⟨-, hj⟩
    · exact hb
    · exact hall j c hj

lemma meets_iff {t : Tableau} {x : ℕ → DeltaRat} :
    t.Meets x ↔ (∀ (k : ℕ) b, t.lower[k]? = some b → b ≤ x k) ∧
      ∀ (k : ℕ) b, t.upper[k]? = some b → x k ≤ b :=
  ⟨fun h => ⟨fun k => (h k).1, fun k => (h k).2⟩, fun h k => ⟨h.1 k, h.2 k⟩⟩

/-- Raising a lower bound is one more condition on a point. If the bound stays, the condition
follows from the old one. -/
lemma meets_tightenLower (t : Tableau) (k : ℕ) (b : DeltaRat) (x : ℕ → DeltaRat) :
    (t.tightenLower k b).Meets x ↔ t.Meets x ∧ b ≤ x k := by
  rw [tightenLower]
  split_ifs with h
  · rw [Option.all_eq_true] at h
    have hins := forall_insert_iff (m := t.lower) (k := k) (b := b) (p := fun j c => c ≤ x j)
      fun c hc hb => (of_decide_eq_true (h c hc)).le.trans hb
    rw [meets_iff, meets_iff, hins, and_right_comm]
  · refine ⟨fun hm => ⟨hm, ?_⟩, fun hm => hm.1⟩
    rw [Bool.not_eq_true, Option.all_eq_false] at h
    obtain ⟨c, hc, hb⟩ := h
    exact (not_lt.1 (of_decide_eq_false hb)).trans ((hm k).1 c hc)

lemma meets_tightenUpper (t : Tableau) (k : ℕ) (b : DeltaRat) (x : ℕ → DeltaRat) :
    (t.tightenUpper k b).Meets x ↔ t.Meets x ∧ x k ≤ b := by
  rw [tightenUpper]
  split_ifs with h
  · rw [Option.all_eq_true] at h
    have hins := forall_insert_iff (m := t.upper) (k := k) (b := b) (p := fun j c => x j ≤ c)
      fun c hc hb => hb.trans (of_decide_eq_true (h c hc)).le
    rw [meets_iff, meets_iff, hins, and_assoc]
  · refine ⟨fun hm => ⟨hm, ?_⟩, fun hm => hm.1⟩
    rw [Bool.not_eq_true, Option.all_eq_false] at h
    obtain ⟨c, hc, hb⟩ := h
    exact ((hm k).2 c hc).trans (not_lt.1 (of_decide_eq_false hb))

/-- **A bound is one more condition on a point**: the variable has to be admitted by
the comparison. -/
lemma meets_bound (t : Tableau) (k : ℕ) (relation : Relation) (b : ℚ) (x : ℕ → DeltaRat) :
    (t.bound k relation b).Meets x ↔ t.Meets x ∧ relation.Admits b (x k) := by
  cases relation with
  | eq => rw [bound, meets_tightenUpper, meets_tightenLower, and_assoc, Relation.Admits]
  | le => rw [bound, meets_tightenUpper, Relation.Admits]
  | lt => rw [bound, meets_tightenUpper, Relation.Admits]
  | ge => rw [bound, meets_tightenLower, Relation.Admits]
  | gt => rw [bound, meets_tightenLower, Relation.Admits]

/-- No value lies within bounds that exclude each other. -/
lemma not_inBounds_of_isConflicting {t : Tableau} {k : ℕ} (h : t.isConflicting k = true)
    (v : DeltaRat) : ¬t.InBounds k v := by
  intro hv
  rw [isConflicting] at h
  split at h
  · next lower upper hl hu =>
    exact absurd ((hv.1 lower hl).trans (hv.2 upper hu)) (not_le.2 (of_decide_eq_true h))
  · simp at h

/-! ## Layout -/

/-- What holds of the names, slacks and bounds of a tableau. The search changes none of them. -/
structure HasLayout (t : Tableau) : Prop where
  /-- Problem variables are variables. -/
  number_lt : ∀ (name : String) k, t.numbers[name]? = some k → k < t.size
  /-- Different names have different variables. -/
  number_inj : ∀ (name other : String) k,
    t.numbers[name]? = some k → t.numbers[other]? = some k → name = other
  /-- Slacks are variables. -/
  slack_lt : ∀ row k, (row, k) ∈ t.slacks → k < t.size
  /-- A slack stands for one combination. -/
  slack_inj : ∀ row other k, (row, k) ∈ t.slacks → (other, k) ∈ t.slacks → row = other
  /-- A slack is no problem variable. -/
  slack_ne_number : ∀ row k (name : String), (row, k) ∈ t.slacks → t.numbers[name]? ≠ some k
  /-- Slacks stand for combinations of problem variables. -/
  slack_support : ∀ row k j, (row, k) ∈ t.slacks → row.coeff j ≠ 0 →
    ∃ name : String, t.numbers[name]? = some j
  /-- The combinations of slacks are reduced. -/
  slack_isReduced : ∀ row k, (row, k) ∈ t.slacks → row.IsReduced
  /-- Only slacks have lower bounds, which no infinitesimal part lowers. -/
  lower_bound : ∀ (k : ℕ) b, t.lower[k]? = some b → 0 ≤ b.delta ∧ ∃ row, (row, k) ∈ t.slacks
  /-- Only slacks have upper bounds, which no infinitesimal part raises. -/
  upper_bound : ∀ (k : ℕ) b, t.upper[k]? = some b → b.delta ≤ 0 ∧ ∃ row, (row, k) ∈ t.slacks

namespace HasLayout

variable {V : Type} [AddCommGroup V] [Module ℚ V] {t : Tableau}

/-- **Values of the names extend to a point.**

**Proof sketch.** Give each problem variable the value of its name, then each slack the value of its
combination there. Slacks stand for combinations of problem variables, which the second step does
not change. -/
lemma exists_point (h : t.HasLayout) (σ : String → V) : ∃ x : ℕ → V, t.IsPoint σ x := by
  classical
  -- the choices are determined: a variable has one name, and a slack one combination
  let base : ℕ → V := fun k => if hk : ∃ name : String, t.numbers[name]? = some k then σ hk.choose
    else 0
  let x : ℕ → V := fun k => if hk : ∃ row, (row, k) ∈ t.slacks then hk.choose.eval base else base k
  have hbase : ∀ (name : String) k, t.numbers[name]? = some k → x k = base k := by
    intro name k hk
    exact dif_neg fun ⟨row, hrow⟩ => h.slack_ne_number row k name hrow hk
  refine ⟨x, ⟨fun name k hk => ?_, fun row k hrow => ?_⟩⟩
  · have hex : ∃ name : String, t.numbers[name]? = some k := ⟨name, hk⟩
    rw [hbase name k hk, show base k = σ hex.choose from dif_pos hex,
      h.number_inj _ name k hex.choose_spec hk]
  · have hex : ∃ row, (row, k) ∈ t.slacks := ⟨row, hrow⟩
    rw [show x k = hex.choose.eval base from dif_pos hex,
      h.slack_inj _ row k hex.choose_spec hrow]
    refine LinComb.eval_congr fun j hj => ?_
    obtain ⟨name, hname⟩ := h.slack_support row k j hrow hj
    exact (hbase name j hname).symm

/-- The values of the names determine those of the slacks. -/
lemma slack_eq (h : t.HasLayout) {σ : String → V} {x y : ℕ → V} (hx : t.IsPoint σ x)
    (hy : t.IsPoint σ y) {row : LinComb ℕ} {k : ℕ} (hk : (row, k) ∈ t.slacks) : x k = y k := by
  rw [hx.slack row k hk, hy.slack row k hk]
  refine LinComb.eval_congr fun j hj => ?_
  obtain ⟨name, hname⟩ := h.slack_support row k j hk hj
  rw [hx.number name j hname, hy.number name j hname]

/-- **Whether the bounds admit values of the names can be seen on any point for them**, since only
slacks have bounds. -/
lemma allows_iff_meets (h : t.HasLayout) {σ : String → DeltaRat} {x : ℕ → DeltaRat}
    (hx : t.IsPoint σ x) : t.Allows σ ↔ t.Meets x := by
  refine ⟨fun ⟨y, hy, hmeets⟩ => meets_iff.2 ⟨fun k b hb => ?_, fun k b hb => ?_⟩,
    fun hmeets => ⟨x, hx, hmeets⟩⟩
  · obtain ⟨-, row, hrow⟩ := h.lower_bound k b hb
    rw [h.slack_eq hx hy hrow]
    exact (hmeets k).1 b hb
  · obtain ⟨-, row, hrow⟩ := h.upper_bound k b hb
    rw [h.slack_eq hx hy hrow]
    exact (hmeets k).2 b hb

end HasLayout

end Tableau

end ExactArith
