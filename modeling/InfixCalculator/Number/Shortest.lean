import InfixCalculator.Number.Decimal

/-! The shortest decimal that reads back as a given double. From the power of ten above the value
downwards, each grid offers the two neighbours of the value on it; the first grid with a neighbour
that reads back wins. Seventeen digits always suffice, so the exact decimal that closes the search
is never needed. -/

namespace InfixCalculator.Number.Shortest

def digitCount (n : Nat) : Nat := (Nat.toDigits 10 n).length

/-- The exponent of the leading decimal digit of `num / den`, if that is at least `10 ^ -350`. -/
def leadingExponent (num den : Nat) : Int :=
  if den ≤ num then (digitCount (num / den) : Int) - 1
  else (digitCount (num * tenTo 350 / den) : Int) - 351

/-- A multiple of `10 ^ exponent` next to the magnitude that reads back as it, the nearer one
first and of two equally near ones the even one. -/
def onGrid? (bits : Nat) (exponent : Int) : Option Nat :=
  let num := Binary64.units bits * tenTo (-exponent).toNat
  let den := Binary64.one * tenTo exponent.toNat
  let low := num / den
  [divRoundEven num den, low, low + 1].find? fun digits => Decimal.magnitude digits exponent = bits

/-- The magnitude itself, digit for digit. -/
def exact (bits : Nat) : Decimal :=
  { digits := Binary64.units bits * Nat.pow 5 1074, exponent := -1074 }

/-- The decimal with the fewest digits that reads back as the finite magnitude with these bits. -/
def ofMagnitude (bits : Nat) : Decimal :=
  if bits = 0 then { digits := 0, exponent := 0 }
  else
    let top := leadingExponent (Binary64.units bits) Binary64.one + 1
    ((List.range 18).findSome? fun (n : Nat) =>
      (onGrid? bits (top - n)).map fun digits => { digits, exponent := top - n }).getD (exact bits)

end InfixCalculator.Number.Shortest
