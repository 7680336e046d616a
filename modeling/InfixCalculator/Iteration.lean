import InfixCalculator.Evaluation
import Mathlib.Logic.Relation

/-! The loop over an expression as a system of configurations. One step enters the piece ahead and
passes it; a configuration that no step leaves is at the end of the text or meets a failure. -/

namespace InfixCalculator

/-- What the loop carries from one piece to the next. -/
structure Configuration where
  place : Cursor
  operandExpected : Bool
  workspace : Workspace

namespace Configuration

def initial (text : List Char) (log : Log) : Configuration where
  place := { passed := [], ahead := text }
  operandExpected := true
  workspace := { log }

/-- One round of the loop: the piece ahead is entered and passed. -/
inductive Step (s : Settings) (x? : Option Float) : Configuration → Configuration → Prop
  | intro {c : Configuration} {l : Lexeme} {w : Workspace} :
    Lexeme.read s c.operandExpected c.place = .ok l →
      Calculation.enter x? l c.workspace = .ok () w →
      Step s x? c
        { place := c.place.advance l.width
          operandExpected := l.expectsOperand c.operandExpected
          workspace := w }

abbrev Reaches (s : Settings) (x? : Option Float) : Configuration → Configuration → Prop :=
  Relation.ReflTransGen (Step s x?)

/-- What the loop does from a configuration on. -/
def remaining (s : Settings) (x? : Option Float) (c : Configuration) :
    EStateM.Result Failure Workspace Unit :=
  Calculation.enterAll s x? 0 c.operandExpected c.place.passed c.place.ahead c.workspace

end Configuration

end InfixCalculator
