import InfixCalculator.Number.Literal
import InfixCalculator.Text.Separated

/-! Numbers read back from comma-separated text, the line of names left out. -/

namespace InfixCalculator.Frame.CsvReader

/-- The lines of a text that ends in a line end. -/
def lines (text : List Char) : List (List Char) := (Text.Separated.parts '\n' text).dropLast

/-- An empty field is no number. -/
def number? (field : List Char) : Option Float :=
  if field.isEmpty then some Number.nan else Number.Literal.float? field

def row? (line : List Char) : Option (List Float) := (Text.Separated.parts ',' line).mapM number?

def rows? (text : String) : Option (List (List Float)) :=
  ((lines text.toList).drop 1).mapM row?

end InfixCalculator.Frame.CsvReader
