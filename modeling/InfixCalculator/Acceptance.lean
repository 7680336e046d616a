/-! What is checked before an expression is calculated: matching brackets, the length and the last
character. Everything else about its form is left to the calculation. -/

namespace InfixCalculator.Acceptance

/-- Whether the text closes `depth` open brackets and all that it opens itself. -/
def closes : Nat → List Char → Bool
  | depth, [] => depth == 0
  | depth, '(' :: rest => closes (depth + 1) rest
  | 0, ')' :: _ => false
  | depth + 1, ')' :: rest => closes depth rest
  | depth, _ :: rest => closes depth rest

/-- No bracket closes before it is open, and none stays open. -/
def bracketsMatch (expression : String) : Bool := closes 0 expression.toList

/-- An operand can end in a digit or a closing bracket. -/
def endsOperand (c : Char) : Bool := c.isDigit || c = ')'

def accepts (maxLength : Int) (expression : String) : Bool :=
  !expression.isEmpty && expression.length ≤ maxLength && bracketsMatch expression &&
    expression.toList.getLast?.any endsOperand

end InfixCalculator.Acceptance
