import InfixCalculator.Number.Decimal

/-! Numbers read from text: an optional sign, then digits with at most one point and an optional
exponent, or a word for an infinity or for no number. -/

namespace InfixCalculator.Number.Literal

/-- Whether a minus leads, and the text behind the sign. -/
def splitSign : List Char → Bool × List Char
  | '-' :: rest => (true, rest)
  | '+' :: rest => (false, rest)
  | rest => (false, rest)

/-- A row of at least one digit and nothing else. -/
def natural? (cs : List Char) : Option Nat :=
  if cs.isEmpty || cs.any (!·.isDigit) then none else some (Decimal.ofDigits cs)

def integer? (cs : List Char) : Option Int :=
  let (negative, rest) := splitSign cs
  (natural? rest).map fun n => if negative then -n else n

/-- What follows the digits: nothing, or `e` and an integer. -/
def exponent? : List Char → Option Int
  | [] => some 0
  | c :: rest => if c = 'e' ∨ c = 'E' then integer? rest else none

/-- The digits behind a leading point and the text behind them. -/
def splitFraction : List Char → List Char × List Char
  | '.' :: rest => (rest.takeWhile Char.isDigit, rest.dropWhile Char.isDigit)
  | rest => ([], rest)

/-- `digits[.digits][e[±]digits]` with a digit before or behind the point. -/
def unsigned? (cs : List Char) : Option Decimal :=
  let whole := cs.takeWhile Char.isDigit
  let (fraction, rest) := splitFraction (cs.dropWhile Char.isDigit)
  if whole.isEmpty && fraction.isEmpty then none
  else
    (exponent? rest).map fun e =>
      { digits := Decimal.ofDigits (whole ++ fraction), exponent := e - fraction.length }

/-- The double that the text names, decimals rounded to nearest. -/
def float? (cs : List Char) : Option Float :=
  let (negative, rest) := splitSign cs
  match String.ofList (rest.map Char.toLower) with
  | "inf" | "infinity" => some (Binary64.signed negative Binary64.infinity)
  | "nan" => some nan
  | _ => (unsigned? rest).map fun d => { d with negative }.toFloat

end InfixCalculator.Number.Literal
