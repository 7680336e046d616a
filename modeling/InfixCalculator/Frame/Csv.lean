import InfixCalculator.Frame
import InfixCalculator.Number.Display

/-! A frame as comma-separated text: a line of names, then a line for each point. What is no
number is an empty field. -/

namespace InfixCalculator.Frame.Csv

def needsQuotes (field : List Char) : Bool :=
  field.any fun c => c = ',' || c = '\x22' || c = '\n'

/-- A field with a comma, a quote or a line end stands in quotes, its own quotes doubled. -/
def quoted (field : String) : String :=
  if needsQuotes field.toList then
    String.ofList
      ('\x22' :: (field.toList.flatMap fun c => if c = '\x22' then [c, c] else [c]) ++ ['\x22'])
  else field

/-- The fields with commas between them. A single empty field is quoted, to differ from no field.
-/
def line (fields : List String) : String :=
  (if fields = [""] then "\"\"" else ",".intercalate (fields.map quoted)) ++ "\n"

def number (v : Float) : String := if v.isNaN then "" else Number.Display.shortest v

def text (f : Frame) : String :=
  String.join (line f.names :: f.points.map fun p => line ((f.row p).map number))

end InfixCalculator.Frame.Csv
