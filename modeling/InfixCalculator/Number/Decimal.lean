import InfixCalculator.Number.Binary64

/-! Decimal numbers and the doubles nearest to them. -/

namespace InfixCalculator.Number

/-- The number `± digits · 10 ^ exponent`. -/
structure Decimal where
  negative : Bool := false
  digits : Nat
  exponent : Int
  deriving DecidableEq, Repr

namespace Decimal

def digitValue (c : Char) : Nat := c.toNat - '0'.toNat

/-- The number that a row of ASCII digits spells. -/
def ofDigits (cs : List Char) : Nat := cs.foldl (fun n c => 10 * n + digitValue c) 0

/-- The bits of the magnitude nearest to `digits · 10 ^ exponent`, ties to the even one. Exponents
far outside the range of doubles are settled without computing the power. -/
def magnitude (digits : Nat) (exponent : Int) : Nat :=
  if digits = 0 then 0
  else if 400 < exponent then Binary64.infinity
  else if exponent + digits.log2 < -400 then 0
  else
    Binary64.ofRatio (digits * tenTo exponent.toNat * Binary64.one) (tenTo (-exponent).toNat)

/-- The double nearest to the decimal, ties to even. -/
def toFloat (d : Decimal) : Float :=
  Binary64.signed d.negative (magnitude d.digits d.exponent)

end Decimal

end InfixCalculator.Number
