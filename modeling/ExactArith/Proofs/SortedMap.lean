import Std.Data.ExtTreeMap
import Mathlib.Order.Nat
import Mathlib.Tactic.SplitIfs

set_option autoImplicit false
set_option relaxedAutoImplicit false

/-!
# The entries of sorted maps

The entries of a sorted map are listed in the order of their keys, each key once, so a walk along
the list meets the value of a key at most once, and a search from the front of the list finds the
entry of the smallest key that has what is asked for.

## Main definitions

* `ExactArith.SortedMap.Lists` — a list with distinct keys has a given value, or none, at a key.

## Main results

* `ExactArith.SortedMap.lists_toList` — the entries of a map list what is found in it.

* `ExactArith.SortedMap.getElem?_insert_eq_some_iff`,
  `ExactArith.SortedMap.getElem?_insert_new_iff` — the entries after an insertion.
* `ExactArith.SortedMap.findSome?_toList_eq_some`, `ExactArith.SortedMap.find?_toList_eq_some` —
  what is found belongs to the smallest key.
-/

namespace ExactArith.SortedMap

section Insert

variable {κ β : Type} [Ord κ] [Std.TransOrd κ] [Std.LawfulEqOrd κ]

/-- After an insertion, the new key has the new value and the others keep theirs. -/
lemma getElem?_insert_eq_some_iff {m : Std.ExtTreeMap κ β compare} {k j : κ} {v w : β} :
    (m.insert k v)[j]? = some w ↔ k = j ∧ v = w ∨ k ≠ j ∧ m[j]? = some w := by
  by_cases h : k = j
  · subst h
    simp
  · simp [Std.ExtTreeMap.getElem?_insert, h]

/-- After the insertion of a new key, no entry is lost. -/
lemma getElem?_insert_new_iff {m : Std.ExtTreeMap κ β compare} {k j : κ} {v w : β}
    (h : m[k]? = none) : (m.insert k v)[j]? = some w ↔ k = j ∧ v = w ∨ m[j]? = some w := by
  rw [getElem?_insert_eq_some_iff]
  refine or_congr_right ⟨And.right, fun hj => ⟨?_, hj⟩⟩
  rintro rfl
  simp [h] at hj

end Insert

section Entries

variable {κ β : Type} {entries : List (κ × β)} {e : κ × β} {k : κ} {o : Option β}

/-- A list of entries with distinct keys has the value `o` at a key, or no entry for it. -/
structure Lists (entries : List (κ × β)) (k : κ) (o : Option β) : Prop where
  distinct : entries.Pairwise fun e f => e.1 ≠ f.1
  mem_iff : ∀ v, (k, v) ∈ entries ↔ o = some v

lemma Lists.of_nil (h : Lists [] k o) : o = none :=
  Option.eq_none_iff_forall_ne_some.2 fun v hv => List.not_mem_nil ((h.mem_iff v).2 hv)

/-- Either the first entry is that of the key, and the others have none for it, or the entry is to
be found among the others. -/
lemma Lists.of_cons (h : Lists (e :: entries) k o) :
    e.1 = k ∧ o = some e.2 ∧ Lists entries k none ∨ e.1 ≠ k ∧ Lists entries k o := by
  obtain ⟨hhead, htail⟩ := List.pairwise_cons.1 h.distinct
  by_cases hk : e.1 = k
  · refine Or.inl ⟨hk, (h.mem_iff e.2).1 (by simp [← hk]), htail, fun v => ?_⟩
    simpa using fun hmem => hhead _ hmem hk
  · refine Or.inr ⟨hk, htail, fun v => ?_⟩
    rw [← h.mem_iff v, List.mem_cons, or_iff_right]
    exact fun he => hk (by rw [← he])

variable [Ord κ] [Std.TransOrd κ] [Std.LawfulEqOrd κ]

/-- The entries of a map have distinct keys. -/
lemma pairwise_toList (m : Std.ExtTreeMap κ β compare) :
    m.toList.Pairwise fun e f => e.1 ≠ f.1 :=
  Std.ExtTreeMap.distinct_keys_toList.imp fun h he => h (Std.compare_eq_iff_eq.2 he)

/-- **The entries of a map list what is found in it.** -/
lemma lists_toList (m : Std.ExtTreeMap κ β compare) (k : κ) : Lists m.toList k m[k]? :=
  ⟨pairwise_toList m, fun _ => Std.ExtTreeMap.mem_toList_iff_getElem?_eq_some⟩

end Entries

section Search

variable {β γ : Type} {m : Std.ExtTreeMap ℕ β compare}

/-- An entry with a smaller key than another stands before it in the list. -/
lemma mem_of_toList_eq_append {before after : List (ℕ × β)} {k j : ℕ} {v w : β}
    (h : m.toList = before ++ (k, v) :: after) (hjk : j < k) (hj : m[j]? = some w) :
    (j, w) ∈ before := by
  have hmem := Std.ExtTreeMap.mem_toList_iff_getElem?_eq_some.2 hj
  have hord := Std.ExtTreeMap.ordered_keys_toList (t := m)
  rw [h] at hmem hord
  rcases List.mem_append.1 hmem with hmem | hmem
  · exact hmem
  · rcases List.mem_cons.1 hmem with hmem | hmem
    · exact absurd (Prod.mk.inj hmem).1 hjk.ne
    · have hkj := (List.pairwise_cons.1 (List.pairwise_append.1 hord).2.1).1 _ hmem
      exact absurd (compare_lt_iff_lt.1 hkj) hjk.not_gt

/-- What a search finds belongs to an entry, and no smaller key has any. -/
lemma findSome?_toList_eq_some {f : ℕ → β → Option γ} {c : γ}
    (h : (m.toList.findSome? fun e => f e.1 e.2) = some c) :
    ∃ (k : ℕ) (v : β), m[k]? = some v ∧ f k v = some c ∧
      ∀ j < k, ∀ w, m[j]? = some w → f j w = none := by
  obtain ⟨before, ⟨k, v⟩, after, heq, hf, hbefore⟩ := List.findSome?_eq_some_iff.1 h
  refine ⟨k, v, ?_, hf, fun j hj w hw => hbefore _ (mem_of_toList_eq_append heq hj hw)⟩
  exact Std.ExtTreeMap.mem_toList_iff_getElem?_eq_some.1 (by rw [heq]; simp)

/-- A search that finds nothing has seen every entry. -/
lemma findSome?_toList_eq_none {f : ℕ → β → Option γ}
    (h : (m.toList.findSome? fun e => f e.1 e.2) = none) (k : ℕ) (v : β) (hk : m[k]? = some v) :
    f k v = none :=
  List.findSome?_eq_none_iff.1 h _ (Std.ExtTreeMap.mem_toList_iff_getElem?_eq_some.2 hk)

/-- The entry that a test finds passes it, and no entry of a smaller key does. -/
lemma find?_toList_eq_some {p : ℕ → β → Bool} {k : ℕ} {v : β}
    (h : (m.toList.find? fun e => p e.1 e.2) = some (k, v)) :
    m[k]? = some v ∧ p k v = true ∧ ∀ j < k, ∀ w, m[j]? = some w → p j w = false := by
  obtain ⟨hp, before, after, heq, hbefore⟩ := List.find?_eq_some_iff_append.1 h
  refine ⟨?_, hp, fun j hj w hw => ?_⟩
  · exact Std.ExtTreeMap.mem_toList_iff_getElem?_eq_some.1 (by rw [heq]; simp)
  · simpa using hbefore _ (mem_of_toList_eq_append heq hj hw)

/-- A test that no entry passes fails for each. -/
lemma find?_toList_eq_none {p : ℕ → β → Bool} (h : (m.toList.find? fun e => p e.1 e.2) = none)
    (k : ℕ) (v : β) (hk : m[k]? = some v) : p k v = false := by
  simpa using List.find?_eq_none.1 h _ (Std.ExtTreeMap.mem_toList_iff_getElem?_eq_some.2 hk)

end Search

end ExactArith.SortedMap
