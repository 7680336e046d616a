import InfixCalculator.Postfix

/-! The conversion to postfix order loses nothing: the operands of a word are those of the text in
their order, and every operator that is not a bracket is in the word exactly once. The conversion
of a text can be cut anywhere, since all it carries over the cut is the waiting tokens. -/

namespace InfixCalculator

namespace Instruction

/-- Whether the instruction stands for a literal, the variable or an exponent. -/
def isOperand : Instruction → Bool
  | literal _ | variableMark | scaling _ _ => true
  | binary _ | unary _ => false

/-- The instruction of a piece that does not wait. -/
def ofOperand? : Lexeme → Option Instruction
  | .numeral n => some (literal n)
  | .scaling negative n => some (scaling negative n)
  | .variableMark => some variableMark
  | .exponentMark _ | .token _ _ => none

/-- The instruction of a piece that waits for its operands. -/
def ofOperator? : Lexeme → Option Instruction
  | .token t _ => ofToken? t
  | _ => none

theorem isOperand_of_ofToken? {t : Token} {i : Instruction} (h : ofToken? t = some i) :
    i.isOperand = false := by
  cases t <;> cases h <;> rfl

theorem filter_isOperand_ofToken? (ts : List Token) :
    (ts.filterMap ofToken?).filter isOperand = [] := by
  rw [List.filter_eq_nil_iff]
  intro i hi
  obtain ⟨t, -, ht⟩ := List.mem_filterMap.mp hi
  simp [isOperand_of_ofToken? ht]

theorem filter_not_isOperand_ofToken? (ts : List Token) :
    (ts.filterMap ofToken?).filter (!isOperand ·) = ts.filterMap ofToken? := by
  rw [List.filter_eq_self]
  intro i hi
  obtain ⟨t, -, ht⟩ := List.mem_filterMap.mp hi
  simp [isOperand_of_ofToken? ht]

end Instruction

namespace Postfix
open Instruction

@[simp] theorem run_nil (x : Float) (stack : List Float) : run x [] stack = .ok stack := rfl

theorem run_cons (x : Float) (i : Instruction) (rest : List Instruction) (stack : List Float) :
    run x (i :: rest) stack = (do run x rest (← i.step x stack)) := rfl

theorem run_cons_ok {x : Float} {i : Instruction} {stack st : List Float}
    (h : i.step x stack = .ok st) (rest : List Instruction) :
    run x (i :: rest) stack = run x rest st := by
  rw [run_cons, h]; rfl

theorem run_cons_error {x : Float} {i : Instruction} {stack : List Float} {fault : DomainFault}
    (h : i.step x stack = .error fault) (rest : List Instruction) :
    run x (i :: rest) stack = .error fault := by
  rw [run_cons, h]; rfl

/-- A word can be run in parts. -/
theorem run_append_ok {x : Float} {a : List Instruction} {stack st : List Float}
    (h : run x a stack = .ok st) (b : List Instruction) :
    run x (a ++ b) stack = run x b st := by
  induction a generalizing stack with
  | nil => cases h; rfl
  | cons i rest ih =>
    cases hi : i.step x stack with
    | error fault => rw [run_cons_error hi] at h; cases h
    | ok st' =>
      rw [run_cons_ok hi] at h
      rw [List.cons_append, run_cons_ok hi, ih h]

theorem run_append_error {x : Float} {a : List Instruction} {stack : List Float}
    {fault : DomainFault} (h : run x a stack = .error fault) (b : List Instruction) :
    run x (a ++ b) stack = .error fault := by
  induction a generalizing stack with
  | nil => cases h
  | cons i rest ih =>
    cases hi : i.step x stack with
    | error fault' =>
      rw [run_cons_error hi] at h
      rw [List.cons_append, run_cons_error hi, h]
    | ok st =>
      rw [run_cons_ok hi] at h
      rw [List.cons_append, run_cons_ok hi, ih h]

@[simp] theorem split_binary (op : BinaryOp) (operandExpected : Bool) (waiting : List Token) :
    split (.binary op) operandExpected waiting =
      (waiting.takeWhile fun top => op.priority ≤ top.priority,
        .binary op :: waiting.dropWhile fun top => op.priority ≤ top.priority) := by
  cases operandExpected <;> rfl

/-- A prefix operator in front of its operand ends nothing. -/
@[simp] theorem split_unary_true (op : PrefixOp) (waiting : List Token) :
    split (.unary op) true waiting = ([], .unary op :: waiting) := rfl

@[simp] theorem split_unary_false (op : PrefixOp) (waiting : List Token) :
    split (.unary op) false waiting =
      (waiting.takeWhile fun top => op.priority ≤ top.priority,
        .unary op :: waiting.dropWhile fun top => op.priority ≤ top.priority) := rfl

@[simp] theorem split_openBracket (operandExpected : Bool) (waiting : List Token) :
    split .openBracket operandExpected waiting = ([], .openBracket :: waiting) := rfl

@[simp] theorem split_closeBracket (operandExpected : Bool) (waiting : List Token) :
    split .closeBracket operandExpected waiting =
      (waiting.takeWhile (· != .openBracket), (waiting.dropWhile (· != .openBracket)).tail) := rfl

@[simp] theorem convert_nil (waiting : List Token) : convert waiting [] = ([], waiting) := rfl

@[simp] theorem convert_token (waiting : List Token) (t : Token) (operandExpected : Bool) :
    convert waiting [.token t operandExpected] =
      ((split t operandExpected waiting).1.filterMap ofToken?,
        (split t operandExpected waiting).2) := by
  simp [convert]

/-- The conversion can be cut anywhere. -/
theorem convert_append (waiting : List Token) (a b : List Lexeme) :
    convert waiting (a ++ b) =
      ((convert waiting a).1 ++ (convert (convert waiting a).2 b).1,
        (convert (convert waiting a).2 b).2) := by
  induction a generalizing waiting with
  | nil => rfl
  | cons l rest ih => cases l <;> simp [convert, ih]

theorem convert_cons (waiting : List Token) (l : Lexeme) (rest : List Lexeme) :
    convert waiting (l :: rest) =
      ((convert waiting [l]).1 ++ (convert (convert waiting [l]).2 rest).1,
        (convert (convert waiting [l]).2 rest).2) :=
  convert_append waiting [l] rest

/-! ## What waits -/

theorem not_mem_split_closeBracket {t : Token} {operandExpected : Bool} {waiting : List Token}
    (h : .closeBracket ∉ waiting) : .closeBracket ∉ (split t operandExpected waiting).2 := by
  have drop (p : Token → Bool) : .closeBracket ∉ waiting.dropWhile p := fun hm =>
    h ((List.dropWhile_sublist p).subset hm)
  cases t with
  | closeBracket => exact fun hm => drop _ (List.mem_of_mem_tail hm)
  | openBracket => simpa using h
  | binary op => simpa using drop _
  | unary op =>
    cases operandExpected with
    | false => simpa using drop _
    | true => simpa using h

/-- A closing bracket never waits, so what is ended has instructions, brackets having none. -/
theorem isSome_of_mem_split {t top : Token} {operandExpected : Bool} {waiting : List Token}
    (h : .closeBracket ∉ waiting) (ht : top ∈ (split t operandExpected waiting).1) :
    (ofToken? top).isSome := by
  have tight {p : Nat} (hp : 0 < p)
      (hm : top ∈ waiting.takeWhile fun top => p ≤ top.priority) : (ofToken? top).isSome := by
    have hle := List.all_eq_true.mp List.all_takeWhile top hm
    cases top with
    | binary _ | unary _ => rfl
    | openBracket | closeBracket => simp [Token.priority] at hle; omega
  cases t with
  | closeBracket =>
    have hne := List.all_eq_true.mp List.all_takeWhile top ht
    have hm := (List.takeWhile_sublist _).subset ht
    cases top with
    | binary _ | unary _ => rfl
    | openBracket => simp at hne
    | closeBracket => exact absurd hm h
  | openBracket => cases ht
  | binary op =>
    rw [split_binary] at ht
    exact tight (by cases op <;> decide) ht
  | unary op =>
    cases operandExpected with
    | false => exact tight (p := op.priority) (by cases op <;> decide) ht
    | true => cases ht

theorem not_mem_convert_closeBracket {waiting : List Token} (h : .closeBracket ∉ waiting)
    (ls : List Lexeme) : .closeBracket ∉ (convert waiting ls).2 := by
  induction ls generalizing waiting with
  | nil => exact h
  | cons l rest ih =>
    cases l with
    | token t operandExpected =>
      rw [convert_cons, convert_token]
      exact ih (not_mem_split_closeBracket h)
    | numeral _ | scaling _ _ | variableMark | exponentMark _ => exact ih h

/-- An operator ends nothing below an opening bracket. -/
theorem split_above {t : Token} {operandExpected : Bool} {above rest : List Token}
    (ho : t ≠ .openBracket) (hc : t ≠ .closeBracket) (ha : .openBracket ∉ above)
    (hr : ∀ top ∈ rest.head?, top = .openBracket) :
    ∃ above', .openBracket ∉ above' ∧
      (split t operandExpected (above ++ rest)).2 = above' ++ rest := by
  have drop {p : Nat} (hp : 0 < p) :
      (above ++ rest).dropWhile (fun top => p ≤ top.priority) =
        above.dropWhile (fun top => p ≤ top.priority) ++ rest := by
    rw [List.dropWhile_append]
    split
    · rename_i he
      rw [List.isEmpty_iff.mp he, List.nil_append]
      cases rest with
      | nil => rfl
      | cons top tail =>
        have hn : ¬ p ≤ top.priority := by
          rw [hr top rfl]
          exact Nat.not_le.mpr hp
        simp [hn]
    · rfl
  have hd (p : Token → Bool) : .openBracket ∉ above.dropWhile p := fun hm =>
    ha ((List.dropWhile_sublist p).subset hm)
  cases t with
  | openBracket => exact absurd rfl ho
  | closeBracket => exact absurd rfl hc
  | binary op =>
    rw [split_binary, drop (by cases op <;> decide)]
    exact ⟨.binary op :: _, by simpa using hd _, rfl⟩
  | unary op =>
    cases operandExpected with
    | false =>
      rw [split_unary_false, drop (by cases op <;> decide)]
      exact ⟨.unary op :: _, by simpa using hd _, rfl⟩
    | true => exact ⟨.unary op :: above, by simpa using ha, rfl⟩

/-! ## What a word contains -/

/-- The operands of a word are those of the pieces, in their order. -/
theorem filter_isOperand_convert (waiting : List Token) (ls : List Lexeme) :
    (convert waiting ls).1.filter isOperand = ls.filterMap ofOperand? := by
  induction ls generalizing waiting with
  | nil => rfl
  | cons l rest ih =>
    cases l with
    | token t operandExpected =>
      rw [convert_cons, convert_token, List.filter_append, filter_isOperand_ofToken?]
      exact ih _
    | exponentMark _ => exact ih waiting
    | numeral n => exact congrArg (literal n :: ·) (ih waiting)
    | scaling negative n => exact congrArg (scaling negative n :: ·) (ih waiting)
    | variableMark => exact congrArg (variableMark :: ·) (ih waiting)

/-- An arriving token neither loses a waiting one nor ends one twice; only brackets disappear. -/
theorem split_perm (t : Token) (operandExpected : Bool) (waiting : List Token) :
    ((split t operandExpected waiting).1.filterMap ofToken? ++
      (split t operandExpected waiting).2.filterMap ofToken?).Perm
        ((ofToken? t).toList ++ waiting.filterMap ofToken?) := by
  have cut (p : Token → Bool) : waiting.filterMap ofToken? =
      (waiting.takeWhile p).filterMap ofToken? ++ (waiting.dropWhile p).filterMap ofToken? := by
    rw [← List.filterMap_append, List.takeWhile_append_dropWhile]
  cases t with
  | closeBracket =>
    rw [cut (· != .openBracket)]
    refine (List.Perm.refl _).append ?_
    simp only [split]
    cases hd : waiting.dropWhile (· != .openBracket) with
    | nil => rfl
    | cons top rest =>
      have ht : top = .openBracket := by
        have := List.head?_dropWhile_not (· != Token.openBracket) waiting
        simpa [hd] using this
      rw [ht]
      rfl
  | openBracket => rfl
  | binary op =>
    rw [cut (fun top => op.priority ≤ top.priority), split_binary]
    exact List.perm_middle
  | unary op =>
    cases operandExpected with
    | false =>
      rw [cut (fun top => op.priority ≤ top.priority), split_unary_false]
      exact List.perm_middle
    | true => rfl

/-- The operators of a word and of the tokens that still wait are those of the pieces and of the
tokens that waited before. -/
theorem convert_perm (waiting : List Token) (ls : List Lexeme) :
    ((convert waiting ls).1.filter (!isOperand ·) ++
      (convert waiting ls).2.filterMap ofToken?).Perm
        (ls.filterMap ofOperator? ++ waiting.filterMap ofToken?) := by
  induction ls generalizing waiting with
  | nil => rfl
  | cons l rest ih =>
    cases l with
    | token t operandExpected =>
      rw [convert_cons, convert_token, List.filter_append, filter_not_isOperand_ofToken?,
        List.append_assoc]
      have ht : (Lexeme.token t operandExpected :: rest).filterMap ofOperator? =
          (ofToken? t).toList ++ rest.filterMap ofOperator? := by
        cases h : ofToken? t <;> simp [ofOperator?, h]
      rw [ht, List.append_assoc]
      -- what the token ends goes behind the later operators and joins what goes on waiting there
      refine ((ih _).append_left _).trans ((List.perm_append_comm_assoc _ _ _).trans ?_)
      refine .trans ?_ (List.perm_append_comm_assoc _ _ _)
      exact (split_perm t operandExpected waiting).append_left _
    | numeral _ | scaling _ _ | variableMark | exponentMark _ => exact ih waiting

/-- Whether a word has the operands of the pieces in their order and their operators, each once. -/
structure Rearranges (word : List Instruction) (ls : List Lexeme) : Prop where
  operands : word.filter isOperand = ls.filterMap ofOperand?
  operators : (word.filter (!isOperand ·)).Perm (ls.filterMap ofOperator?)

theorem rearranges_word (ls : List Lexeme) : Rearranges (word ls) ls where
  operands := by
    rw [word, List.filter_append, filter_isOperand_ofToken?, List.append_nil]
    exact filter_isOperand_convert [] ls
  operators := by
    rw [word, List.filter_append, filter_not_isOperand_ofToken?]
    simpa using convert_perm [] ls

end Postfix

end InfixCalculator
