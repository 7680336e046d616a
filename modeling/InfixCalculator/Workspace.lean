import InfixCalculator.Arithmetic
import InfixCalculator.Lexeme
import InfixCalculator.Record

/-! The two stacks of a calculation. A new operator first carries out the operators on the stack
that bind at least as tightly; a closing bracket carries out all down to its opening bracket. An
operand that is missing counts as no number. What was taken off a stack before a failure stays
off. -/

namespace InfixCalculator

structure Workspace where
  /-- The top first. -/
  operands : List Float := []
  /-- The top first. -/
  operators : List Token := []
  log : Log := #[]

/-- A step on the stacks. A failure keeps the stacks as they are then. -/
abbrev Calculation := EStateM Failure Workspace

namespace Calculation

def report (r : Record) : Calculation Unit :=
  modify fun w => { w with log := w.log.push r }

def pushOperand (v : Float) : Calculation Unit :=
  modify fun w => { w with operands := v :: w.operands }

/-- Takes the top operand off, or no number off an empty stack. -/
def popOperand : Calculation Float :=
  modifyGet fun w => (w.operands.headD Number.nan, { w with operands := w.operands.tail })

def pushOperator (t : Token) : Calculation Unit :=
  modify fun w => { w with operators := t :: w.operators }

def popOperator : Calculation Unit :=
  modify fun w => { w with operators := w.operators.tail }

def pushResult : Except DomainFault Float → Calculation Unit
  | .ok v => pushOperand v
  | .error fault => throw (.domain fault)

/-- Carries out a token on the operands. A bracket has no effect but a record. -/
def apply : Token → Calculation Unit
  | .binary op => do
    let right ← popOperand
    let left ← popOperand
    pushResult (op.apply left right)
  | .unary op => do
    let value ← popOperand
    pushResult (op.apply value)
  | t => report (.bracketDropped t)

/-- Carries out the tokens in order, taking each off the operator stack. -/
def reduceEach : List Token → Calculation Unit
  | [] => pure ()
  | t :: rest => do
    popOperator
    apply t
    reduceEach rest

/-- Carries out the operators from the top as long as they satisfy `p`. -/
def reduceWhile (p : Token → Bool) : Calculation Unit := do
  reduceEach ((← get).operators.takeWhile p)

/-- Puts an operator on its stack. Where an operand is expected, a sign or function has none of
its own yet and carries nothing out. -/
def addOperator (t : Token) (operandExpected : Bool) : Calculation Unit :=
  match t with
  | .closeBracket => do
    reduceWhile (· != .openBracket)
    popOperator
  | .openBracket => pushOperator .openBracket
  | t => do
    unless operandExpected && t.isUnary do
      reduceWhile fun top => t.priority ≤ top.priority
    pushOperator t

def value (n : Numeral) : Calculation Float :=
  match n.value? with
  | some v => pure v
  | none => throw (.noNumber (String.ofList n.text))

/-- The value of the variable, if it was given one. -/
def given : Option Float → Calculation Float
  | some x => pure x
  | none => throw .variableUnset

/-- Enters a piece of an expression, `x?` standing for the variable if it has a value. -/
def enter (x? : Option Float) : Lexeme → Calculation Unit
  | .numeral n => do pushOperand (← value n)
  | .scaling negative n => do
    let exponent ← value n
    let base ← popOperand
    pushOperand (scale base negative exponent)
  | .variableMark => do pushOperand (← given x?)
  | .exponentMark _ => pure ()
  | .token t operandExpected => addOperator t operandExpected

/-- Enters the numeral ahead and returns how many characters it has behind its first. -/
def enterNumeral (s : Settings) (place : Cursor) : Calculation Nat := do
  let lexeme := Lexeme.readNumeral s place
  enter none lexeme
  return lexeme.width - 1

/-- Carries out all operators and returns the top operand, which should be the only one. -/
def finish : Calculation Float := do
  reduceWhile fun _ => true
  match (← get).operands with
  | [v] => return v
  | operands =>
    report (.operandCount operands.length)
    return operands.headD Number.nan

end Calculation

end InfixCalculator
