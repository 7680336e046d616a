import InfixCalculator.Program

/-! What comes of an evaluation, said by the pieces of its text. They give a word and leave tokens
waiting; the word runs first, then the reading may have met a fault, and what waits is carried out
last. -/

namespace InfixCalculator

/-- The end of a calculation with these operands and these tokens waiting. -/
def Calculation.ending (operands : List Float) (waiting : List Token) : Logged Float := fun log =>
  match finish { operands, operators := waiting, log } with
  | .ok v w => .ok v w.log
  | .error failure w => .error failure w.log

namespace Reading

/-- What comes of the pieces, and of the fault behind them if there is one. -/
def outcome (r : Reading) (x : Float) : Logged Float := fun log =>
  match Postfix.run x (Postfix.convert [] r.lexemes).1 [], r.fault with
  | .error fault, _ => .error (.domain fault) log
  | .ok _, some failure => .error failure log
  | .ok stack, none => Calculation.ending stack (Postfix.convert [] r.lexemes).2 log

end Reading

/-- The failure, if it is a symbol that cannot be read, at another place. -/
def Failure.relocate (move : Nat → Nat) : Failure → Failure
  | unknownSymbol symbol position => unknownSymbol symbol (move position)
  | failure => failure

def relocated {α : Type} (move : Nat → Nat) :
    EStateM.Result Failure Log α → EStateM.Result Failure Log α
  | .ok a log => .ok a log
  | .error failure log => .error (failure.relocate move) log

end InfixCalculator
