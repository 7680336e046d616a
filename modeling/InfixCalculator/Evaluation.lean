import InfixCalculator.Workspace

/-! The value of an expression: its pieces are entered one by one, then all operators are carried
out. The first failure on the way ends the calculation. -/

namespace InfixCalculator

/-- A run that reports and may fail. Records made before a failure remain. -/
abbrev Logged := EStateM Failure Log

namespace Calculation

/-- Enters the pieces of the text ahead. Of the piece just entered `skip` characters still have to
be passed. -/
def enterAll (s : Settings) (x? : Option Float) (skip : Nat) (operandExpected : Bool)
    (passed : List Char) : List Char → Calculation Unit
  | [] => pure ()
  | c :: rest =>
    match skip with
    | skip + 1 => enterAll s x? skip operandExpected (c :: passed) rest
    | 0 =>
      match Lexeme.read s operandExpected { passed, ahead := c :: rest } with
      | .error failure => throw failure
      | .ok lexeme => do
        enter x? lexeme
        enterAll s x? (lexeme.width - 1) (lexeme.expectsOperand operandExpected) (c :: passed)
          rest

/-- The value of a text, `x?` standing for the variable. -/
def run (s : Settings) (x? : Option Float) (text : List Char) : Calculation Float := do
  enterAll s x? 0 true [] text
  finish

end Calculation

/-- A calculation on empty stacks. -/
def Calculation.logged {α : Type} (c : Calculation α) : Logged α := fun log =>
  match c { log } with
  | .ok a w => .ok a w.log
  | .error failure w => .error failure w.log

/-- The value of an expression at `x?`. The empty expression has the value zero, and one without
the variable the same value for all `x?`. -/
def evaluate (s : Settings) (expression : String) (x? : Option Float) : Logged Float :=
  if expression.isEmpty then pure 0 else (Calculation.run s x? expression.toList).logged

/-- A value, or the reason why there is none. -/
abbrev Outcome := Except DomainFault Float

/-- Like `evaluate`, with a fault of the domain as a result. -/
def tryEvaluate (s : Settings) (expression : String) (x? : Option Float) : Logged Outcome :=
  fun log =>
  match evaluate s expression x? log with
  | .ok v log => .ok (.ok v) log
  | .error (.domain fault) log => .ok (.error fault) log
  | .error failure log => .error failure log

def Outcome.describe : Outcome → String
  | .ok v => "EvaluationResult(ok=True, value=" ++ Number.Display.shortest v ++ ")"
  | .error fault =>
    "EvaluationResult(ok=False, error=DomainError(" ++ Text.Quoted.encode fault.message ++ "))"

end InfixCalculator
