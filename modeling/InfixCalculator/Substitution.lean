import InfixCalculator.Numeral

/-! Texts in the place of the variable. -/

namespace InfixCalculator

/-- The text with another text for each of its variables. -/
def substitute (operand text : List Char) : List Char :=
  text.flatMap fun c => if c = 'x' then operand else [c]

/-- A numeral in brackets, with a sign or without. -/
def Numeral.enclosed (negative : Bool) (n : Numeral) : List Char :=
  '(' :: ((if negative then ['-'] else []) ++ n.text ++ [')'])

end InfixCalculator
