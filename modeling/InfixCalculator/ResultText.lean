import InfixCalculator.Number.Display
import InfixCalculator.Settings

/-! How a result is shown. -/

namespace InfixCalculator

/-- How many places a result is to have. -/
inductive Precision where
  | configured
  | exactly (places : Int)
  /-- The number was left out. -/
  | blank
  deriving DecidableEq, Repr

namespace Precision

def maxPlaces : Int := 0x7FFFFFFF

/-- The largest number that can be told from others beyond `maxPlaces`. -/
def maxNumber : Int := 0x7FFFFFFFFFFFFFFF

def ofInt (n : Int) : Except PlacesFault Nat :=
  if n < 0 then .error .missing
  else if maxNumber < n then .error .tooManyDigits
  else if maxPlaces < n then .error .tooMany
  else .ok n.toNat

def places (s : Settings) : Precision → Except PlacesFault Nat
  | configured => ofInt s.precision
  | exactly n => ofInt n
  | blank => .error .missing

end Precision

/-- The value with the given number of places. Infinities and what is no number are shown as such.
-/
def resultText (s : Settings) (precision : Precision) (value : Float) : Except Failure String :=
  if !value.isFinite then .ok (Number.Display.shortest value)
  else
    match precision.places s with
    | .ok places => .ok (Number.Display.fixed places value)
    | .error fault => .error (.places fault)

end InfixCalculator
