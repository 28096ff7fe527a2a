import ExactArith.Text
import Mathlib.Data.List.DropRight
import Mathlib.Data.List.TakeWhile

set_option autoImplicit false
set_option relaxedAutoImplicit false

/-!
# Trimmed texts

A text is trimmed to its core: the part of it that has blanks only on its outside and none at its
own two ends. There is one such part, and trimming gives it.

## Main definitions

* `ExactArith.Text.TrimsTo` — one text is the core of another.

## Main results

* `ExactArith.Text.trim_eq_iff` — trimming gives the core, and nothing else is the core.
* `ExactArith.Text.TrimsTo.of_not_isBlank` — a text without blanks is the core of that text between
  blanks.
-/

namespace ExactArith.Text

/-- The text `core` is what is left of `cs` without the blanks at its two ends. -/
structure TrimsTo (cs core : List Char) : Prop where
  split : ∃ before after, (∀ c ∈ before, isBlank c = true) ∧ (∀ c ∈ after, isBlank c = true) ∧
    cs = before ++ core ++ after
  head : ∀ c ∈ core.head?, isBlank c = false
  last : ∀ c ∈ core.getLast?, isBlank c = false

variable {cs core before after rest : List Char}

/-- A text without blanks is what is left of it between blanks. -/
lemma TrimsTo.of_not_isBlank (hbefore : ∀ c ∈ before, isBlank c = true)
    (hafter : ∀ c ∈ after, isBlank c = true) (hcore : ∀ c ∈ core, isBlank c = false) :
    TrimsTo (before ++ core ++ after) core where
  split := ⟨before, after, hbefore, hafter, rfl⟩
  head c hc := hcore c (List.mem_of_mem_head? hc)
  last c hc := hcore c (List.mem_of_mem_getLast? hc)

lemma TrimsTo.refl (h : ∀ c ∈ core, isBlank c = false) : TrimsTo core core := by
  have hcore := of_not_isBlank (List.forall_mem_nil _) (List.forall_mem_nil _) h
  rwa [List.nil_append, List.append_nil] at hcore

lemma trim_eq_rdropWhile (cs : List Char) :
    trim cs = (cs.dropWhile isBlank).rdropWhile isBlank := rfl

lemma dropWhile_append_of_head (hbefore : ∀ c ∈ before, isBlank c = true)
    (hrest : ∀ c ∈ rest.head?, isBlank c = false) : (before ++ rest).dropWhile isBlank = rest := by
  rw [List.dropWhile_append_of_pos hbefore]
  cases rest with
  | nil => rfl
  | cons c rest => rw [List.dropWhile_cons_of_neg (by simp [hrest c rfl])]

/-- The core of a text is what trimming gives.

**Proof sketch.** The blanks in front are dropped up to the first character of the core, and those
behind up to its last one. An empty core leaves nothing but blanks, all of which go in front. -/
lemma TrimsTo.trim_eq (h : TrimsTo cs core) : trim cs = core := by
  obtain ⟨⟨before, after, hbefore, hafter, rfl⟩, hhead, hlast⟩ := h
  rw [trim, List.append_assoc]
  cases core with
  | nil =>
    have hall : (before ++ ([] ++ after)).dropWhile isBlank = [] :=
      List.dropWhile_eq_nil_iff.2 (List.forall_mem_append.2 ⟨hbefore, hafter⟩)
    rw [hall]
    rfl
  | cons c core =>
    rw [dropWhile_append_of_head hbefore (by simpa using hhead c rfl), List.reverse_append,
      dropWhile_append_of_head (by simpa using hafter) (by rwa [List.head?_reverse]),
      List.reverse_reverse]

/-- What trimming gives is a core. -/
lemma trimsTo_trim (cs : List Char) : TrimsTo cs (trim cs) := by
  rw [trim_eq_rdropWhile]
  refine ⟨⟨cs.takeWhile isBlank, (cs.dropWhile isBlank).rtakeWhile isBlank,
    fun c => List.mem_takeWhile_imp, fun c => List.mem_rtakeWhile_imp, ?_⟩, fun c hc => ?_,
    fun c hc => ?_⟩
  · rw [List.append_assoc, List.rdropWhile_append_rtakeWhile, List.takeWhile_append_dropWhile]
  · obtain ⟨suffix, hsuffix⟩ := List.rdropWhile_prefix isBlank (l := cs.dropWhile isBlank)
    have hhead := List.head?_dropWhile_not isBlank cs
    rw [← hsuffix, List.head?_append, Option.mem_def.1 hc] at hhead
    exact hhead
  · obtain ⟨hne, rfl⟩ := List.mem_getLast?_eq_getLast hc
    simpa using List.rdropWhile_last_not isBlank _ hne

/-- **Trimming a text gives its core, and nothing else is its core.** -/
lemma trim_eq_iff : trim cs = core ↔ TrimsTo cs core :=
  ⟨fun h => h ▸ trimsTo_trim cs, TrimsTo.trim_eq⟩

end ExactArith.Text
