import InfixCalculator.Number.Power
import InfixCalculator.Number.Rounding

/-! Doubles as exact numbers. The magnitude of a finite double is a whole number of units, one
unit being `2 ^ -1074`, so comparisons, remainders and decimal digits are exact arithmetic on
naturals. Magnitude bits are ordered like the magnitudes themselves. -/

namespace InfixCalculator.Number

def nan : Float := Float.ofBits 0x7ff8000000000000

namespace Binary64

/-- How many units make one. -/
def one : Nat := twoTo 1074

/-- The magnitude bits of infinity, above those of every finite magnitude. -/
def infinity : Nat := 2047 * twoTo 52

def isNegative (v : Float) : Bool := twoTo 63 ≤ v.toBits.toNat

/-- The bits of `v` without its sign. -/
def magnitude (v : Float) : Nat := v.toBits.toNat % twoTo 63

/-- The double with the given sign and magnitude bits. -/
def signed (negative : Bool) (bits : Nat) : Float :=
  Float.ofBits (UInt64.ofNat (if negative then twoTo 63 + bits else bits))

/-- The last binary digit of the magnitude with these bits stands for `2 ^ place` units. -/
def place (bits : Nat) : Nat := bits / twoTo 52 - 1

/-- The finite magnitude with these bits, in units. -/
def units (bits : Nat) : Nat := (bits - place bits * twoTo 52) * twoTo (place bits)

/-- The bits of the magnitude nearest to `num / den` units, ties to the even one. -/
def ofRatio (num den : Nat) : Nat :=
  let place := (num / den).log2 - 52
  min (place * twoTo 52 + divRoundEven num (den * twoTo place)) infinity

/-- The place of a double in the order of all doubles, both zeros sharing one. -/
def rank (v : Float) : Nat :=
  if isNegative v then twoTo 63 - magnitude v else twoTo 63 + magnitude v

theorem rank_lt (v : Float) : rank v < twoTo 64 := by
  have := Nat.mod_lt v.toBits.toNat (twoTo_pos 63)
  have : twoTo 64 = 2 * twoTo 63 := twoTo_succ 63
  unfold rank magnitude
  split <;> omega

end Binary64

/-- What `x` leaves when whole multiples of `y` are taken off it towards zero, exactly. The sign
is that of `x`. -/
def remainder (x y : Float) : Float :=
  if x.isNaN || y.isNaN || x.isInf || y == 0 then nan
  else if y.isInf then x
  else
    Binary64.signed (Binary64.isNegative x) (Binary64.ofRatio
      (Binary64.units (Binary64.magnitude x) % Binary64.units (Binary64.magnitude y)) 1)

end InfixCalculator.Number
