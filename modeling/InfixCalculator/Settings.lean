import InfixCalculator.Failure
import InfixCalculator.Number.Binary64

/-! What can be configured, and the values under which the program runs. -/

namespace InfixCalculator

structure Settings where
  /-- Stands for the variable in an expression. -/
  variableMarker : String := "x"
  /-- Followed by a sign and digits, scales the number before it by a power of ten. -/
  exponentMarker : String := "E"
  maxLength : Int := 255
  /-- Places of a displayed result. -/
  precision : Int := 7
  /-- The step between sample points, as a part of the sum of the bounds' magnitudes. -/
  stepFactor : Float := 0.001
  xColumn : String := "x"
  yColumn : String := "y"

namespace Settings

/-- A marker that is not one character long marks nothing. -/
def marks (marker : String) (c : Char) : Bool := marker.toList = [c]

def isVariable (s : Settings) (c : Char) : Bool := marks s.variableMarker c

def isExponent (s : Settings) (c : Char) : Bool := marks s.exponentMarker c

/-- The first fault, in a fixed order. -/
def fault? (s : Settings) : Option SettingsFault :=
  if s.variableMarker.length ≠ 1 then some .variableMarker
  else if s.exponentMarker.length ≠ 1 then some .exponentMarker
  else if s.variableMarker = s.exponentMarker then some .equalMarkers
  else if s.maxLength ≠ 255 then some .maxLength
  else if s.precision < 0 then some .precision
  else if ¬(0 < s.stepFactor ∧ s.stepFactor < 1) then some .stepFactor
  else none

def check (s : Settings) : Except Failure Unit :=
  match s.fault? with
  | some fault => .error (.settings fault)
  | none => .ok ()

end Settings

end InfixCalculator
