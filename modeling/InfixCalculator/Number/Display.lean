import InfixCalculator.Number.Shortest

/-! How numbers are written. A double is displayed with the fewest digits that read back,
positionally while its leading exponent is from -4 to 15 and with a marked exponent elsewhere.
Fixed places and seven significant digits are rounded on the exact value, ties to even. -/

namespace InfixCalculator.Number.Display

def padded (width : Nat) (digits : String) : String :=
  String.ofList (List.replicate (width - digits.length) '0') ++ digits

/-- `digits / 10 ^ places`, written with exactly that many places. -/
def withPlaces (places digits : Nat) : String :=
  if places = 0 then toString digits
  else toString (digits / tenTo places) ++ "." ++ padded places (toString (digits % tenTo places))

/-- `digits · 10 ^ exponent` with at least one place. -/
def positional (digits : Nat) (exponent : Int) : String :=
  if exponent < 0 then withPlaces (-exponent).toNat digits
  else toString (digits * tenTo exponent.toNat) ++ ".0"

/-- A row of digits with a point behind the first, and the leading exponent with its sign and at
least two digits. -/
def scientific (digits : String) (leading : Int) : String :=
  let rest := digits.toList.drop 1
  String.ofList (digits.toList.take 1 ++ if rest.isEmpty then [] else '.' :: rest) ++ "e" ++
    (if leading < 0 then "-" else "+") ++ padded 2 (toString leading.natAbs)

def decimal (d : Decimal) : String :=
  let leading := (Shortest.digitCount d.digits : Int) - 1 + d.exponent
  if -4 ≤ leading ∧ leading < 16 then positional d.digits d.exponent
  else scientific (toString d.digits) leading

def sign (v : Float) : String := if Binary64.isNegative v then "-" else ""

/-- The fewest digits that read back; `nan`, `inf` and `-inf` for the rest. -/
def shortest (v : Float) : String :=
  if v.isNaN then "nan"
  else if v.isInf then sign v ++ "inf"
  else sign v ++ decimal (Shortest.ofMagnitude (Binary64.magnitude v))

/-- Every double is a whole number of units of this place. -/
def lastPlace : Nat := 1074

/-- A finite value with the given number of places. Behind the last place of all doubles they hold
zeros. -/
def fixed (places : Nat) (v : Float) : String :=
  let exact := min places lastPlace
  sign v ++
    withPlaces exact
      (divRoundEven (Binary64.units (Binary64.magnitude v) * tenTo exact) Binary64.one) ++
    String.ofList (List.replicate (places - exact) '0')

/-- A finite value with one digit before the point and the given number of places behind it. -/
def exponential (places : Nat) (v : Float) : String :=
  let num := Binary64.units (Binary64.magnitude v)
  if num = 0 then sign v ++ scientific (padded (places + 1) "0") 0
  else
    let leading := Shortest.leadingExponent num Binary64.one
    let unit := leading - places
    let digits := divRoundEven (num * tenTo (-unit).toNat) (Binary64.one * tenTo unit.toNat)
    if digits = tenTo (places + 1) then
      sign v ++ scientific (toString (tenTo places)) (leading + 1)
    else sign v ++ scientific (toString digits) leading

end InfixCalculator.Number.Display
