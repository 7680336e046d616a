import InfixCalculator.Settings
import InfixCalculator.Token

/-! Other characters for the marks of an expression. -/

namespace InfixCalculator

/-- Whether the character is free to be a mark: no numeral and no symbol is written with it. -/
structure CanMark (c : Char) : Prop where
  isDigit : c.isDigit = false
  ne_point : c ≠ '.'
  not_mem_symbol : ∀ t : Token, c ∉ t.symbol.toList

/-- The character that stands for `c` when `v` marks the variable and `m` an exponent. -/
def mark (v m c : Char) : Char := if c = 'x' then v else if c = 'E' then m else c

/-- The text with other marks. -/
def remark (v m : Char) (text : List Char) : List Char := text.map (mark v m)

def Settings.withMarks (s : Settings) (v m : Char) : Settings :=
  { s with variableMarker := String.singleton v, exponentMarker := String.singleton m }

end InfixCalculator
