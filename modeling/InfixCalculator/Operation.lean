import InfixCalculator.Workspace

/-! The operations on the two stacks, one by one and in any order. One that fails leaves the stacks
as they are then, and others may follow it. -/

namespace InfixCalculator

/-- The workspace that a calculation leaves, also when it fails. -/
def Calculation.leaves {α : Type} (c : Calculation α) (w : Workspace) : Workspace :=
  match c w with
  | .ok _ w' | .error _ w' => w'

inductive Operation where
  | push (v : Float)
  /-- Enters the numeral at a place. -/
  | read (s : Settings) (place : Cursor)
  | apply (t : Token)
  | add (t : Token) (operandExpected : Bool)
  | finish

namespace Operation

/-- The workspace after the operation, whether it fails or not. -/
def after : Operation → Workspace → Workspace
  | push v => (Calculation.pushOperand v).leaves
  | read s place => (Calculation.enterNumeral s place).leaves
  | apply t => (Calculation.apply t).leaves
  | add t operandExpected => (Calculation.addOperator t operandExpected).leaves
  | finish => Calculation.finish.leaves

/-- The workspace after operations in a row. -/
def afterAll (operations : List Operation) (w : Workspace) : Workspace :=
  operations.foldl (fun w operation => operation.after w) w

end Operation

end InfixCalculator
