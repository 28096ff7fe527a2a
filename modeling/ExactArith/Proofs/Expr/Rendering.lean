import ExactArith.Proofs.Number.Writing
import ExactArith.Proofs.Tree.Worklist
import ExactArith.Text

set_option autoImplicit false
set_option relaxedAutoImplicit false

/-!
# The text of an expression shows the expression

Expressions whose symbols are identifiers are told apart by their texts. Identifiers and numerals
are *words*, which hold neither blanks nor parentheses. So a leaf ends where its word ends, and a
node, which opens with a parenthesis, is no leaf. A minus or a bar inside a word belongs to a
numeral; as an operator it stands between two blanks.

Where more text follows an expression, the two can be parted if the rest cannot continue a word. The
rests that occur inside a node cannot: they start with a blank or with a closing parenthesis.

## Main definitions

* `ExactArith.Text.IsWord` — texts made of the characters of identifiers and numerals.
* `ExactArith.Text.EndsWord` — a text cannot continue a word.
* `ExactArith.Expr.HasIdentifiers` — the symbols of an expression are identifiers.

## Main results

* `ExactArith.Text.IsWord.append_inj` — a word and the text that ends it can be parted in one way.
* `ExactArith.Expr.eq_of_render_append` — so can an expression and the text after it.
* `ExactArith.eq_of_render_eq` — the text of an expression, or of a term, shows it.
-/

namespace ExactArith

/-! ## Words -/

namespace Text

/-- Characters of identifiers and numerals. -/
def isWordChar (c : Char) : Bool := Identifier.isRest c || c == '-' || c == '/'

/-- A text that is not empty and made of characters of identifiers and numerals. -/
structure IsWord (cs : List Char) : Prop where
  ne_nil : cs ≠ []
  isWordChar : ∀ c ∈ cs, isWordChar c = true

/-- A text does not go on with a character of a word. -/
def EndsWord (cs : List Char) : Prop := ∀ c ∈ cs.head?, isWordChar c = false

lemma endsWord_nil : EndsWord [] := by
  intro c hc
  simp at hc

lemma endsWord_cons {c : Char} {cs : List Char} (h : isWordChar c = false) :
    EndsWord (c :: cs) := by
  intro c' hc'
  obtain rfl : c = c' := by simpa using hc'
  exact h

variable {word word' rest rest' : List Char}

lemma IsWord.takeWhile_append (hword : IsWord word) (hrest : EndsWord rest) :
    (word ++ rest).takeWhile Text.isWordChar = word := by
  rw [List.takeWhile_append_of_pos hword.isWordChar]
  cases rest with
  | nil => simp
  | cons c rest => rw [List.takeWhile_cons_of_neg (by simp [hrest c rfl]), List.append_nil]

/-- **A word and the text that ends it can be parted in one way.** -/
lemma IsWord.append_inj (hword : IsWord word) (hword' : IsWord word') (hrest : EndsWord rest)
    (hrest' : EndsWord rest') (h : word ++ rest = word' ++ rest') :
    word = word' ∧ rest = rest' := by
  obtain rfl : word = word' := by
    rw [← hword.takeWhile_append hrest, h, hword'.takeWhile_append hrest']
  exact ⟨rfl, List.append_cancel_left h⟩

end Text

namespace Identifier

lemma isRest_of_isStart {c : Char} (h : isStart c = true) : isRest c = true := by
  simp only [isStart, Bool.or_eq_true] at h
  simp only [isRest, Char.isAlphanum, Bool.or_eq_true]
  tauto

/-- An accepted name starts like an identifier and goes on like one. -/
lemma exists_of_check_eq_ok {name : String} (h : check name = .ok ()) : ∃ first rest,
    name.toList = first :: rest ∧ isStart first = true ∧ ∀ c ∈ rest, isRest c = true := by
  unfold check at h
  split at h
  · simp at h
  · next first rest hname =>
    split_ifs at h with hall
    rw [Bool.and_eq_true, List.all_eq_true] at hall
    exact ⟨first, rest, hname, hall⟩

lemma toNat_of_isAlpha {c : Char} (h : c.isAlpha = true) :
    (65 ≤ c.toNat ∧ c.toNat ≤ 90) ∨ (97 ≤ c.toNat ∧ c.toNat ≤ 122) := by
  rcases Bool.or_eq_true_iff.1 h with hupper | hlower
  · exact Or.inl (of_decide_eq_true hupper)
  · obtain ⟨hge, hle⟩ := Bool.and_eq_true_iff.1 hlower
    exact Or.inr ⟨of_decide_eq_true hge, of_decide_eq_true hle⟩

/-- No identifier starts like a numeral. -/
lemma not_starts_numeral {c : Char} (h : isStart c = true) : ¬(c.isDigit = true ∨ c = '-') := by
  rintro (hdigit | rfl)
  · have hbounds := Numeral.toNat_of_isDigit hdigit
    rcases Bool.or_eq_true_iff.1 h with halpha | hunderscore
    · have hletter := toNat_of_isAlpha halpha
      omega
    · obtain rfl := eq_of_beq hunderscore
      exact absurd hdigit (by decide)
  · exact absurd h (by decide)

lemma isWord_of_check {name : String} (h : check name = .ok ()) : Text.IsWord name.toList := by
  obtain ⟨first, rest, hname, hfirst, hrest⟩ := exists_of_check_eq_ok h
  have hall : ∀ c ∈ name.toList, isRest c = true := by
    rw [hname, List.forall_mem_cons]
    exact ⟨isRest_of_isStart hfirst, hrest⟩
  refine ⟨by simp [hname], ?_⟩
  intro c hc
  simp [Text.isWordChar, hall c hc]

end Identifier

lemma Numeral.isWord_write (q : ℚ) : Text.IsWord (write q).toList := by
  obtain ⟨first, rest, hwrite, -⟩ := exists_write_eq_cons q
  refine ⟨by simp [hwrite], ?_⟩
  intro c hc
  rcases mem_write hc with hdigit | rfl | rfl
  · simp [Text.isWordChar, Identifier.isRest, Char.isAlphanum, hdigit]
  · rfl
  · rfl

lemma Operator.symbol_injective : Function.Injective Operator.symbol := by
  intro op op' h
  have hop := ofChar_symbol op
  rw [h, ofChar_symbol op'] at hop
  exact (Except.ok.inj hop).symm

/-! ## Expressions -/

namespace Expr

/-- The symbols of an expression are identifiers. -/
def HasIdentifiers (e : Expr) : Prop := ∀ name ∈ e.symbols, Identifier.check name = .ok ()

variable {e e₁ e₂ l r : Expr} {op : Operator} {rest rest₁ rest₂ : List Char}

lemma HasIdentifiers.left (h : (node l op r).HasIdentifiers) : l.HasIdentifiers :=
  fun name hname => h name (mem_symbols_node.2 (Or.inl hname))

lemma HasIdentifiers.right (h : (node l op r).HasIdentifiers) : r.HasIdentifiers :=
  fun name hname => h name (mem_symbols_node.2 (Or.inr hname))

lemma HasIdentifiers.check {name : String} (h : (symbol name).HasIdentifiers) :
    Identifier.check name = .ok () :=
  h name (mem_symbols_symbol.2 rfl)

lemma leaf_or_node (e : Expr) :
    BinaryTree.operands e = none ∨ ∃ left op right, e = node left op right := by
  cases e with
  | symbol name => exact Or.inl rfl
  | constant value => exact Or.inl rfl
  | node left op right => exact Or.inr ⟨left, op, right, rfl⟩

/-- A leaf is written as a word. -/
lemma isWord_of_leaf (hleaf : BinaryTree.operands e = none) (h : e.HasIdentifiers) :
    Text.IsWord e.render.toList := by
  cases e with
  | symbol name => exact Identifier.isWord_of_check h.check
  | constant value => exact Numeral.isWord_write value
  | node left op right => simp [BinaryTree.operands] at hleaf

/-- No symbol is written like a constant. -/
lemma render_symbol_ne {name : String} (h : Identifier.check name = .ok ()) (value : ℚ) :
    name ≠ Numeral.write value := by
  rintro rfl
  obtain ⟨first, rest, hname, hfirst, -⟩ := Identifier.exists_of_check_eq_ok h
  obtain ⟨first', rest', hvalue, hfirst'⟩ := Numeral.exists_write_eq_cons value
  obtain ⟨rfl, -⟩ := List.cons.inj (hname.symm.trans hvalue)
  exact Identifier.not_starts_numeral hfirst hfirst'

/-- The text of a leaf shows the leaf. -/
lemma eq_of_leaf_render (hleaf₁ : BinaryTree.operands e₁ = none)
    (hleaf₂ : BinaryTree.operands e₂ = none) (h₁ : e₁.HasIdentifiers) (h₂ : e₂.HasIdentifiers)
    (h : e₁.render = e₂.render) : e₁ = e₂ := by
  cases e₁ with
  | node left op right => simp [BinaryTree.operands] at hleaf₁
  | symbol name =>
    cases e₂ with
    | node left op right => simp [BinaryTree.operands] at hleaf₂
    | symbol other => exact congrArg symbol h
    | constant value => exact absurd h (render_symbol_ne h₁.check value)
  | constant value =>
    cases e₂ with
    | node left op right => simp [BinaryTree.operands] at hleaf₂
    | symbol name => exact absurd h.symm (render_symbol_ne h₂.check value)
    | constant other => exact congrArg constant (Numeral.write_injective h)

/-- The parts of the text of a node. -/
lemma toList_render_node_append : (node l op r).render.toList ++ rest =
    '(' :: (l.render.toList ++ ' ' :: op.symbol :: ' ' :: (r.render.toList ++ ')' :: rest)) := by
  simp [render, Operator.text, String.toList_append]

/-- A leaf and the text that ends its word can be parted in one way. -/
lemma eq_of_leaf_append (hleaf : BinaryTree.operands e₁ = none) (h₁ : e₁.HasIdentifiers)
    (h₂ : e₂.HasIdentifiers) (hrest₁ : Text.EndsWord rest₁) (hrest₂ : Text.EndsWord rest₂)
    (h : e₁.render.toList ++ rest₁ = e₂.render.toList ++ rest₂) : e₁ = e₂ ∧ rest₁ = rest₂ := by
  have hword₁ := isWord_of_leaf hleaf h₁
  rcases e₂.leaf_or_node with hleaf₂ | ⟨l, op, r, rfl⟩
  · obtain ⟨htext, hrest⟩ := hword₁.append_inj (isWord_of_leaf hleaf₂ h₂) hrest₁ hrest₂ h
    exact ⟨eq_of_leaf_render hleaf hleaf₂ h₁ h₂ (String.toList_inj.1 htext), hrest⟩
  · -- the word would have to open with a parenthesis
    obtain ⟨first, word, htext⟩ := List.exists_cons_of_ne_nil hword₁.ne_nil
    rw [htext, toList_render_node_append] at h
    obtain rfl := (List.cons.inj h).1
    have hparenthesis := hword₁.isWordChar '(' (by simp [htext])
    simp [Text.isWordChar, Identifier.isRest] at hparenthesis

/-- **An expression and the text that ends its last word can be parted in one way.**

**Proof sketch.** Induction on the first expression. A node opens with a parenthesis, so the second
expression is a node as well. The rest after the left operand starts with a blank, and that after
the right one with a parenthesis; so the left operands agree, then the operators, then the right
ones. -/
lemma eq_of_render_append (h₁ : e₁.HasIdentifiers) (h₂ : e₂.HasIdentifiers)
    (hrest₁ : Text.EndsWord rest₁) (hrest₂ : Text.EndsWord rest₂)
    (h : e₁.render.toList ++ rest₁ = e₂.render.toList ++ rest₂) : e₁ = e₂ ∧ rest₁ = rest₂ := by
  induction e₁ generalizing e₂ rest₁ rest₂ with
  | symbol name => exact eq_of_leaf_append rfl h₁ h₂ hrest₁ hrest₂ h
  | constant value => exact eq_of_leaf_append rfl h₁ h₂ hrest₁ hrest₂ h
  | node left op right ihl ihr =>
    rcases e₂.leaf_or_node with hleaf | ⟨left', op', right', rfl⟩
    · exact (eq_of_leaf_append hleaf h₂ h₁ hrest₂ hrest₁ h.symm).imp Eq.symm Eq.symm
    · rw [toList_render_node_append, toList_render_node_append] at h
      obtain ⟨rfl, hop⟩ := ihl h₁.left h₂.left (Text.endsWord_cons rfl) (Text.endsWord_cons rfl)
        (List.cons.inj h).2
      obtain ⟨hsymbol, hright⟩ := List.cons.inj (List.cons.inj hop).2
      obtain rfl := Operator.symbol_injective hsymbol
      obtain ⟨rfl, hrest⟩ := ihr h₁.right h₂.right (Text.endsWord_cons rfl) (Text.endsWord_cons rfl)
        (List.cons.inj hright).2
      exact ⟨rfl, (List.cons.inj hrest).2⟩

end Expr

/-! ## Terms -/

/-- Every term is the term of an expression. -/
lemma Term.exists_toTerm_eq (t : Term) : ∃ e : Expr, e.toTerm = t := by
  induction t with
  | var name => exact ⟨.symbol name, rfl⟩
  | lit value => exact ⟨.constant value, rfl⟩
  | node op left right ihl ihr =>
    obtain ⟨l, rfl⟩ := ihl
    obtain ⟨r, rfl⟩ := ihr
    exact ⟨.node l op r, rfl⟩

/-- **The text of an expression shows the expression**, if its symbols are identifiers; and the text
of a term shows the term in the same way.

**Proof sketch.** Nothing follows a whole text, so nothing can continue its last word. A term is the
term of an expression, which has the same names and the same text. -/
theorem eq_of_render_eq :
    (∀ e₁ e₂ : Expr, (∀ name ∈ e₁.symbols, Identifier.check name = .ok ()) →
      (∀ name ∈ e₂.symbols, Identifier.check name = .ok ()) → e₁.render = e₂.render → e₁ = e₂) ∧
    ∀ t₁ t₂ : Term, (∀ name ∈ t₁.vars, Identifier.check name = .ok ()) →
      (∀ name ∈ t₂.vars, Identifier.check name = .ok ()) → t₁.render = t₂.render → t₁ = t₂ := by
  have hexpr : ∀ e₁ e₂ : Expr, e₁.HasIdentifiers → e₂.HasIdentifiers → e₁.render = e₂.render →
      e₁ = e₂ := by
    intro e₁ e₂ h₁ h₂ h
    exact (Expr.eq_of_render_append h₁ h₂ Text.endsWord_nil Text.endsWord_nil (by rw [h])).1
  refine ⟨hexpr, ?_⟩
  intro t₁ t₂ h₁ h₂ h
  obtain ⟨e₁, rfl⟩ := t₁.exists_toTerm_eq
  obtain ⟨e₂, rfl⟩ := t₂.exists_toTerm_eq
  rw [Expr.render_toTerm, Expr.render_toTerm] at h
  rw [Expr.vars_toTerm] at h₁ h₂
  rw [hexpr e₁ e₂ h₁ h₂ h]

/-- The literals `-2/4` and `-1/2` are one number, so that the two differences have one text; and
they are one expression, or one term. -/
theorem eq_of_render_eq_half :
    (∀ name ∈ (Expr.node (.symbol "x'") .sub (.constant (-2 / 4))).symbols,
        Identifier.check name = .ok ()) ∧
      (∀ name ∈ (Expr.node (.symbol "x'") .sub (.constant (-1 / 2))).symbols,
        Identifier.check name = .ok ()) ∧
      (Expr.node (.symbol "x'") .sub (.constant (-2 / 4))).render = "(x' - -1/2)" ∧
      Expr.node (.symbol "x'") .sub (.constant (-2 / 4)) =
        .node (.symbol "x'") .sub (.constant (-1 / 2)) ∧
      Term.node .sub (.var "x'") (.lit (-2 / 4)) = .node .sub (.var "x'") (.lit (-1 / 2)) := by
  have hnames : ∀ q : ℚ, ∀ name ∈ (Expr.node (.symbol "x'") .sub (.constant q)).symbols,
      Identifier.check name = .ok () := by
    intro q name hname
    obtain rfl : "x'" = name := by simpa using hname
    rfl
  have hvars : ∀ q : ℚ, ∀ name ∈ (Term.node .sub (.var "x'") (.lit q)).vars,
      Identifier.check name = .ok () := by
    intro q name hname
    obtain rfl : "x'" = name := by simpa using hname
    rfl
  refine ⟨hnames _, hnames _, by decide +kernel, ?_, ?_⟩
  · exact eq_of_render_eq.1 _ _ (hnames _) (hnames _) (by decide +kernel)
  · exact eq_of_render_eq.2 _ _ (hvars _) (hvars _) (by decide +kernel)

/-- A symbol whose name is no identifier can look like a constant. -/
example : (Expr.symbol "1").render = (Expr.constant 1).render := by decide

end ExactArith
