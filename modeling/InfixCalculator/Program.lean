import InfixCalculator.Postfix
import InfixCalculator.Reading

/-! A calculation in two phases. First a text is read and put in postfix order, without a look at
any value; then the word runs on one stack. -/

namespace InfixCalculator

structure Program where
  word : List Instruction
  /-- What ended the reading, if it did not reach the end of the text. -/
  fault : Option Failure

namespace Reading

def lexemes (r : Reading) : List Lexeme := r.pieces.map (·.lexeme)

/-- The word of the whole text, or of what the pieces before a fault have ended. -/
def program (r : Reading) : Program where
  word := if r.fault.isNone then Postfix.word r.lexemes else (Postfix.convert [] r.lexemes).1
  fault := r.fault

end Reading

namespace Program

/-- The stack after the word. A fault of the word comes before the one of the reading. -/
def run (p : Program) (x : Float) : Except Failure (List Float) :=
  match Postfix.run x p.word [], p.fault with
  | .error fault, _ => .error (.domain fault)
  | .ok _, some failure => .error failure
  | .ok stack, none => .ok stack

/-- The program of an expression. -/
def ofExpression (s : Settings) (expression : String) : Program :=
  (Reading.ofText s expression.toList).program

end Program

end InfixCalculator
