import InfixCalculator.Operation
import InfixCalculator.Proofs.Iteration
import InfixCalculator.Proofs.Operators.Effect
import Mathlib.Data.List.Chain

/-! The order of the operators on their stack. A binary operator stands on looser tokens only, while
a prefix operator stands on anything. So between brackets the stack holds binary operators from the
loosest to the tightest, and above them prefix operators in the order of their arrival. -/

namespace InfixCalculator

/-- Whether a segment, from the bottom to the top, consists of binary operators, each tighter than
the one below it, and of prefix operators above them. -/
def Ascends (segment : List Token) : Prop :=
  ∃ (binaries : List BinaryOp) (prefixes : List PrefixOp),
    segment = binaries.map .binary ++ prefixes.map .unary ∧
    binaries.Pairwise (fun lower upper => lower.priority < upper.priority) ∧ binaries.length ≤ 3

/-- Whether no closing bracket is on the stack, and every part of it without an opening bracket
ascends. -/
structure Tiered (operators : List Token) : Prop where
  not_mem : .closeBracket ∉ operators
  ascends : ∀ segment, segment <:+: operators → .openBracket ∉ segment → Ascends segment.reverse

/-! ## Neighbours on the stack -/

/-- What may stand directly on what. -/
def Token.StandsOn (upper lower : Token) : Prop :=
  ∀ op, upper = .binary op → lower.priority < op.priority

/-- The invariant of the stack, said of neighbours. -/
structure Stacked (operators : List Token) : Prop where
  not_mem : .closeBracket ∉ operators
  chain : operators.IsChain Token.StandsOn

namespace Stacked

variable {operators rest : List Token} {t : Token}

theorem nil : Stacked [] := ⟨List.not_mem_nil, .nil⟩

theorem suffix (h : Stacked operators) (hr : rest <:+ operators) : Stacked rest :=
  ⟨fun hm => h.not_mem (hr.subset hm), h.chain.suffix hr⟩

theorem cons (h : Stacked operators) (ht : t ≠ .closeBracket)
    (hs : ∀ top ∈ operators.head?, t.StandsOn top) : Stacked (t :: operators) where
  not_mem := by simpa [Ne.symm ht] using h.not_mem
  chain := List.isChain_cons.mpr ⟨hs, h.chain⟩

/-- What is no binary operator may stand on anything. -/
theorem cons_of_ne (h : Stacked operators) (ht : t ≠ .closeBracket) (hb : ∀ op, t ≠ .binary op) :
    Stacked (t :: operators) :=
  h.cons ht fun _ _ op hop => absurd hop (hb op)

/-- A binary operator comes to stand where all that binds as tightly is gone. -/
theorem split (h : Stacked operators) (t : Token) (operandExpected : Bool) :
    Stacked (Postfix.split t operandExpected operators).2 := by
  have hdrop (p : Token → Bool) : Stacked (operators.dropWhile p) :=
    h.suffix (List.dropWhile_suffix p)
  cases t with
  | closeBracket =>
    exact h.suffix ((List.tail_suffix _).trans (List.dropWhile_suffix _))
  | openBracket => exact h.cons_of_ne nofun nofun
  | binary op =>
    rw [Postfix.split_binary]
    refine (hdrop _).cons nofun ?_
    intro top htop op' ht
    cases ht
    have hnot := List.head?_dropWhile_not (fun top : Token => op.priority ≤ top.priority) operators
    rw [htop] at hnot
    simpa using hnot
  | unary op =>
    cases operandExpected with
    | true => exact h.cons_of_ne nofun nofun
    | false =>
      rw [Postfix.split_unary_false]
      exact (hdrop _).cons_of_ne nofun nofun

end Stacked

/-! ## Segments -/

theorem length_le_three {binaries : List BinaryOp}
    (h : binaries.Pairwise fun lower upper => lower.priority < upper.priority) :
    binaries.length ≤ 3 := by
  have hlow (op : BinaryOp) : 1 ≤ op.priority := by cases op <;> decide
  have hhigh (op : BinaryOp) : op.priority ≤ 3 := by cases op <;> decide
  match binaries with
  | [] | [_] | [_, _] | [_, _, _] => simp
  | a :: b :: c :: d :: rest =>
    simp only [List.pairwise_cons, List.mem_cons, forall_eq_or_imp] at h
    have := hlow a
    have := hhigh d
    omega

/-- Without brackets, prefix operators stand above the binary ones, which become looser downwards.
-/
theorem exists_of_isChain {segment : List Token} (hc : segment.IsChain Token.StandsOn)
    (hopen : .openBracket ∉ segment) (hclose : .closeBracket ∉ segment) :
    ∃ (prefixes : List PrefixOp) (binaries : List BinaryOp),
      segment = prefixes.map .unary ++ binaries.map .binary ∧
      binaries.IsChain fun upper lower => lower.priority < upper.priority := by
  induction segment with
  | nil => exact ⟨[], [], rfl, .nil⟩
  | cons t rest ih =>
    obtain ⟨hstands, hchain⟩ := List.isChain_cons.mp hc
    rw [List.mem_cons, not_or] at hopen hclose
    obtain ⟨prefixes, binaries, rfl, hbinaries⟩ := ih hchain hopen.2 hclose.2
    cases t with
    | openBracket => exact absurd rfl hopen.1
    | closeBracket => exact absurd rfl hclose.1
    | unary op => exact ⟨op :: prefixes, binaries, rfl, hbinaries⟩
    | binary op =>
      -- a prefix operator binds tighter than any binary one, so none is below it
      cases prefixes with
      | cons top _ =>
        have hlt : top.priority < op.priority := hstands (.unary top) rfl op rfl
        have : 4 ≤ top.priority := by cases top <;> decide
        have : op.priority ≤ 3 := by cases op <;> decide
        omega
      | nil =>
        refine ⟨[], op :: binaries, rfl, List.isChain_cons.mpr ⟨?_, hbinaries⟩⟩
        intro lower hlower
        refine hstands (.binary lower) ?_ op rfl
        simpa using hlower

theorem Stacked.tiered {operators : List Token} (h : Stacked operators) : Tiered operators where
  not_mem := h.not_mem
  ascends := by
    intro segment hsegment hopen
    have hchain := List.IsChain.infix h.chain hsegment
    obtain ⟨prefixes, binaries, rfl, hbinaries⟩ :=
      exists_of_isChain hchain hopen fun hm => h.not_mem (hsegment.subset hm)
    have : Trans (fun upper lower : BinaryOp => lower.priority < upper.priority)
        (fun upper lower : BinaryOp => lower.priority < upper.priority)
        (fun upper lower : BinaryOp => lower.priority < upper.priority) :=
      ⟨fun hab hbc => Nat.lt_trans hbc hab⟩
    have hpairwise :=
      List.pairwise_reverse.mpr (List.isChain_iff_pairwise.mp hbinaries)
    exact ⟨binaries.reverse, prefixes.reverse, by simp, hpairwise, length_le_three hpairwise⟩

/-! ## Operations -/

namespace Calculation

variable {w : Workspace}

theorem leaves_apply_operators (t : Token) (w : Workspace) :
    ((apply t).leaves w).operators = w.operators := by
  rcases apply_cases t w with ⟨v, h⟩ | ⟨fault, h⟩
  · rw [leaves, h w.operators]
  · rw [leaves, h w.operators]

theorem stacked_addOperator (h : Stacked w.operators) (t : Token) (operandExpected : Bool) :
    Stacked ((addOperator t operandExpected).leaves w).operators := by
  have heffect := addOperator_effect t operandExpected w
  rw [leaves]
  cases hr : addOperator t operandExpected w with
  | ok u w' =>
    rw [hr] at heffect
    exact heffect.1 ▸ h.split t operandExpected
  | error failure w' =>
    rw [hr] at heffect
    exact h.suffix heffect.1.suffix

theorem stacked_finish (h : Stacked w.operators) : Stacked (finish.leaves w).operators := by
  have heffect := finish_effect w
  rw [leaves]
  cases hr : finish w with
  | ok v w' =>
    rw [hr] at heffect
    exact heffect.1 ▸ Stacked.nil
  | error failure w' =>
    rw [hr] at heffect
    exact h.suffix (Aborted.suffix heffect)

/-- Of the pieces only tokens have a part in the operator stack. -/
theorem stacked_enter (h : Stacked w.operators) (x? : Option Float) (l : Lexeme) :
    Stacked ((enter x? l).leaves w).operators := by
  cases l with
  | numeral n | scaling negative n =>
    cases hn : n.value? with
    | none =>
      simp only [leaves, enter, value, hn]
      exact h
    | some v =>
      rw [leaves, enter, bind_ok (value_eq hn w)]
      exact h
  | variableMark => cases x? <;> exact h
  | exponentMark sign => exact h
  | token t operandExpected => exact stacked_addOperator h t operandExpected

/-- To enter the numeral ahead is to enter its piece. -/
theorem leaves_enterNumeral (s : Settings) (place : Cursor) (w : Workspace) :
    (enterNumeral s place).leaves w = (enter none (Lexeme.readNumeral s place)).leaves w := by
  rw [leaves, leaves, enterNumeral]
  cases he : enter none (Lexeme.readNumeral s place) w with
  | ok u w' => rw [bind_ok he]; rfl
  | error failure w' => rw [bind_error he]

/-- Operators that are carried out from the top leave a part of the stack below them. -/
theorem stacked_reduceEach (h : Stacked w.operators) {front : List Token}
    (hf : front <+: w.operators) : Stacked ((reduceEach front).leaves w).operators := by
  obtain ⟨kept, hkept⟩ := hf
  have hfront := reduceEach_front hkept.symm
  rw [leaves]
  cases hr : reduceEach front w with
  | ok u w' =>
    rw [hr] at hfront
    exact h.suffix ⟨front, by rw [hfront.1, hkept]⟩
  | error failure w' =>
    rw [hr] at hfront
    exact h.suffix hfront.1.suffix

end Calculation

theorem Operation.stacked_after {w : Workspace} (h : Stacked w.operators) (operation : Operation) :
    Stacked (operation.after w).operators := by
  cases operation with
  | push v => exact h
  | read s place =>
    rw [after, Calculation.leaves_enterNumeral]
    exact Calculation.stacked_enter h none _
  | apply t =>
    rw [after, Calculation.leaves_apply_operators]
    exact h
  | add t operandExpected => exact Calculation.stacked_addOperator h t operandExpected
  | finish => exact Calculation.stacked_finish h

theorem Operation.stacked_afterAll {w : Workspace} (h : Stacked w.operators)
    (operations : List Operation) : Stacked (afterAll operations w).operators := by
  induction operations generalizing w with
  | nil => exact h
  | cons operation rest ih => exact ih (stacked_after h operation)

theorem Configuration.stacked_of_reaches {s : Settings} {x? : Option Float} {c c' : Configuration}
    (h : Stacked c.workspace.operators) (hreach : Reaches s x? c c') :
    Stacked c'.workspace.operators := by
  induction hreach with
  | refl => exact h
  | tail _ hstep ih =>
    cases hstep with
    | @intro l w _ he =>
      have hleft := Calculation.stacked_enter ih x? l
      rwa [Calculation.leaves, he] at hleft

/-- Whatever is done to empty stacks, and wherever a calculation is, be it between two pieces, in
the midst of the operators that one of them ends, behind a failure or at its end, the operators are
in tiers. -/
theorem operators_in_tiers :
    (∀ operations log, Tiered (Operation.afterAll operations { log }).operators) ∧
    ∀ s x? text log c, Configuration.Reaches s x? (Configuration.initial text log) c →
      (∀ front, front <+: c.workspace.operators →
        Tiered ((Calculation.reduceEach front).leaves c.workspace).operators) ∧
      (∀ l, Tiered ((Calculation.enter x? l).leaves c.workspace).operators) ∧
      Tiered (Calculation.finish.leaves c.workspace).operators := by
  constructor
  · intro operations log
    exact (Operation.stacked_afterAll Stacked.nil operations).tiered
  · intro s x? text log c hreach
    have h : Stacked c.workspace.operators := Configuration.stacked_of_reaches .nil hreach
    refine ⟨fun front hfront => ?_, fun l => ?_, ?_⟩
    · exact (Calculation.stacked_reduceEach h hfront).tiered
    · exact (Calculation.stacked_enter h x? l).tiered
    · exact (Calculation.stacked_finish h).tiered

/-- A function stands on a sign that binds tighter, both in front of their operand. -/
example : (Operation.afterAll [.add (.binary .mul) false, .add (.unary .neg) true,
    .add (.unary .sin) true] {}).operators = [.unary .sin, .unary .neg, .binary .mul] := rfl

end InfixCalculator
