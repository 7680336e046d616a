import InfixCalculator.Grammar

/-! Beginnings of well-formed texts. Where an operand is expected, any operand completes the text
up to its last open bracket; behind an operand a binary operator can go on, since the operand joins
the largest part in front of it that the operator does not bind tighter than. -/

namespace InfixCalculator.Grammar

variable {level depth : Nat} {text left right : List Char} {t a b : Tree}

/-- A tighter text can stand for a looser one. -/
theorem Spells.loosen {level' : Nat} (h : Spells level text t) (hle : level' ≤ level) :
    Spells level' text t := by
  induction hle with
  | refl => exact h
  | step _ ih => exact ih h.tighter

/-- A binary operator and a prefixed operand can be put behind any text that is not tighter than
the operator. The operator finds its place on the right edge of the tree. -/
theorem Spells.exists_binary (op : BinaryOp) (hl : Spells level left a)
    (hr : Spells prefixed right b) (hle : level ≤ levelOf op) :
    ∃ t, Spells level (left ++ op.symbol.toList ++ right) t := by
  have hop : levelOf op + 1 ≤ prefixed := by cases op <;> decide
  have hr' : Spells (levelOf op + 1) right b := hr.loosen hop
  induction hl with
  | numeral _ | variableMark | bracketed _ _ | scaled _ _ _ _ | unary _ _ _ =>
    exact absurd (Nat.lt_of_le_of_lt hle hop) (by decide)
  | tighter h ih =>
    rcases Nat.lt_or_eq_of_le hle with hlt | rfl
    · obtain ⟨t, ht⟩ := ih hlt
      exact ⟨t, ht.tighter⟩
    · exact ⟨_, .binary op h.tighter hr'⟩
  | @binary l m _ _ op' h h' _ ih =>
    rcases Nat.lt_or_eq_of_le hle with hlt | heq
    · obtain ⟨t, ht⟩ := ih hlt
      have hregroup : l ++ op'.symbol.toList ++ m ++ op.symbol.toList ++ right =
          l ++ op'.symbol.toList ++ (m ++ op.symbol.toList ++ right) := by
        simp only [List.append_assoc]
      rw [hregroup]
      exact ⟨_, .binary op' h ht⟩
    · have hall : Spells (levelOf op') (l ++ op'.symbol.toList ++ m) _ := .binary op' h h'
      rw [heq] at hall ⊢
      exact ⟨_, .binary op hall hr'⟩

/-! ## Open brackets -/

/-- Whether a text is well formed behind its last open bracket, and in front of each open bracket
any operand would make it so. -/
def Complete : Nat → List Char → Prop
  | 0, text => IsWellFormed text
  | depth + 1, text => ∃ front inner,
    (∀ u t, Spells prefixed u t → Complete depth (front ++ u)) ∧ IsWellFormed inner ∧
      text = front ++ '(' :: inner

/-- Whether any operand makes the text complete. -/
def Begun (depth : Nat) (text : List Char) : Prop :=
  ∀ u t, Spells prefixed u t → Complete depth (text ++ u)

/-- Whether the text ends in an operand that makes it complete. -/
def Ended (depth : Nat) (text : List Char) : Prop :=
  ∃ front u t, Begun depth front ∧ Spells scaled u t ∧ text = front ++ u

theorem begun_nil : Begun 0 [] := fun _ t h => ⟨t, h.loosen (by decide)⟩

theorem Begun.unary (op : PrefixOp) (h : Begun depth text) :
    Begun depth (text ++ op.symbol.toList) := by
  intro u t hu
  rw [List.append_assoc]
  exact h _ _ (hu.unary op)

theorem Begun.openBracket (h : Begun depth text) : Begun (depth + 1) (text ++ ['(']) := by
  intro u t hu
  exact ⟨text, u, h, ⟨t, hu.loosen (by decide)⟩, by rw [List.append_assoc]; rfl⟩

theorem Begun.operand (h : Begun depth text) {u : List Char} (hu : Spells primary u t) :
    Ended depth (text ++ u) :=
  ⟨text, u, t, h, hu.loosen (by decide), rfl⟩

theorem Ended.complete (h : Ended depth text) : Complete depth text := by
  obtain ⟨front, u, t, hfront, hu, rfl⟩ := h
  exact hfront u t (hu.loosen (by decide))

theorem Ended.scaled {n : Numeral} (negative : Bool) (h : Ended depth text) (hn : n.IsLiteral) :
    Ended depth (text ++ 'E' :: signOf negative :: n.text) := by
  obtain ⟨front, u, t, hfront, hu, rfl⟩ := h
  exact ⟨front, _, _, hfront, .scaled negative hu hn, by rw [List.append_assoc]⟩

theorem isWellFormed_binary (op : BinaryOp) (hl : IsWellFormed left)
    (hr : Spells prefixed right b) :
    IsWellFormed (left ++ op.symbol.toList ++ right) := by
  obtain ⟨a, ha⟩ := hl
  exact ha.exists_binary op hr (by cases op <;> decide)

/-- Behind an operand an operator can go on, whatever brackets are open. -/
theorem Ended.binary (op : BinaryOp) (h : Ended depth text) :
    Begun depth (text ++ op.symbol.toList) := by
  intro u t hu
  have hc := h.complete
  cases depth with
  | zero => exact isWellFormed_binary op hc hu
  | succ depth =>
    obtain ⟨front, inner, hfront, hinner, rfl⟩ := hc
    refine ⟨front, inner ++ op.symbol.toList ++ u, hfront, isWellFormed_binary op hinner hu, ?_⟩
    simp only [List.append_assoc, List.cons_append]

theorem Ended.closeBracket (h : Ended (depth + 1) text) : Ended depth (text ++ [')']) := by
  obtain ⟨front, inner, hfront, ⟨t, hinner⟩, rfl⟩ := h.complete
  refine ⟨front, '(' :: (inner ++ [')']), t, hfront, hinner.bracketed.loosen (by decide), ?_⟩
  simp only [List.append_assoc, List.cons_append]

end InfixCalculator.Grammar
