/-! Sample points under the names of their columns. -/

namespace InfixCalculator

structure Frame where
  xName : String
  yName : String
  points : List (Float × Float)

namespace Frame

/-- Columns of one name are one column, which holds the values. -/
def isMerged (f : Frame) : Bool := f.xName = f.yName

def names (f : Frame) : List String := if f.isMerged then [f.yName] else [f.xName, f.yName]

def row (f : Frame) (point : Float × Float) : List Float :=
  if f.isMerged then [point.2] else [point.1, point.2]

def columns (f : Frame) : List (String × List Float) :=
  if f.isMerged then [(f.yName, f.points.map (·.2))]
  else [(f.xName, f.points.map (·.1)), (f.yName, f.points.map (·.2))]

def size (f : Frame) : Nat := f.points.length

end Frame

end InfixCalculator
