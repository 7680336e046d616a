import InfixCalculator.Arithmetic
import InfixCalculator.Lexeme

/-! Words in postfix order and the machine that runs them on one stack. The pieces of an
expression are put in postfix order by priorities and brackets alone, without a look at any value.
-/

namespace InfixCalculator

inductive Instruction where
  | literal (n : Numeral)
  | variableMark
  | scaling (negative : Bool) (n : Numeral)
  | binary (op : BinaryOp)
  | unary (op : PrefixOp)
  deriving DecidableEq, Repr

namespace Instruction

/-- Brackets leave no trace in a word. -/
def ofToken? : Token → Option Instruction
  | .binary op => some (binary op)
  | .unary op => some (unary op)
  | .openBracket | .closeBracket => none

/-- One instruction on a stack, top first, whose missing operands are no numbers. -/
def step (x : Float) (i : Instruction) (stack : List Float) : Except DomainFault (List Float) :=
  match i with
  | literal n => .ok (n.value?.getD Number.nan :: stack)
  | variableMark => .ok (x :: stack)
  | scaling negative n =>
    .ok (scale (stack.headD Number.nan) negative (n.value?.getD Number.nan) :: stack.tail)
  | binary op =>
    (op.apply (stack.tail.headD Number.nan) (stack.headD Number.nan)).map (· :: stack.tail.tail)
  | unary op => (op.apply (stack.headD Number.nan)).map (· :: stack.tail)

end Instruction

namespace Postfix

/-- The stack after a word, or its first fault. -/
def run (x : Float) : List Instruction → List Float → Except DomainFault (List Float)
  | [], stack => .ok stack
  | i :: rest, stack => do run x rest (← i.step x stack)

/-- The tokens that an arriving token ends, and those that go on waiting behind it. -/
def split (t : Token) (operandExpected : Bool) (waiting : List Token) : List Token × List Token :=
  match t with
  | .closeBracket =>
    (waiting.takeWhile (· != .openBracket), (waiting.dropWhile (· != .openBracket)).tail)
  | .openBracket => ([], .openBracket :: waiting)
  | t =>
    if operandExpected && t.isUnary then ([], t :: waiting)
    else
      (waiting.takeWhile fun top => t.priority ≤ top.priority,
        t :: waiting.dropWhile fun top => t.priority ≤ top.priority)

/-- The word of the pieces before the last token is ended, and the tokens that still wait. -/
def convert (waiting : List Token) : List Lexeme → List Instruction × List Token
  | [] => ([], waiting)
  | .numeral n :: rest => ((convert waiting rest).map (.literal n :: ·) id)
  | .variableMark :: rest => ((convert waiting rest).map (.variableMark :: ·) id)
  | .scaling negative n :: rest => ((convert waiting rest).map (.scaling negative n :: ·) id)
  | .exponentMark _ :: rest => convert waiting rest
  | .token t operandExpected :: rest =>
    let (ended, waiting) := split t operandExpected waiting
    (convert waiting rest).map (ended.filterMap Instruction.ofToken? ++ ·) id

/-- The whole word, with the waiting tokens at its end. -/
def word (lexemes : List Lexeme) : List Instruction :=
  let (emitted, waiting) := convert [] lexemes
  emitted ++ waiting.filterMap Instruction.ofToken?

end Postfix

end InfixCalculator
