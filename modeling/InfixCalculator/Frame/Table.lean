import InfixCalculator.Frame
import InfixCalculator.Number.Display
import InfixCalculator.Text.Blank

/-! A frame as a table for reading. All entries of a column are written alike: with the fewest
places, at least one and at most six, that show what six places show, or with an exponent if that
hides a small value or makes the column too wide. -/

namespace InfixCalculator.Frame.Table

open Number

/-- The value in millionths, a half to the even one. -/
def millionths (v : Float) : Nat :=
  divRoundEven (Binary64.units (Binary64.magnitude v) * tenTo 6) Binary64.one

/-- Whether so many places show the value as six places do. -/
def showsFully (places : Nat) (v : Float) : Bool :=
  !v.isFinite || millionths v % tenTo (6 - places) = 0

def places (values : List Float) : Nat :=
  ([1, 2, 3, 4, 5].find? fun places => values.all (showsFully places)).getD 6

def entry (finite : Float → String) (v : Float) : String :=
  if v.isNaN then "NaN" else if v.isFinite then finite v else Display.shortest v

def fixedEntries (values : List Float) : List String :=
  let places := places values
  values.map <| entry fun v =>
    Display.sign v ++ Display.withPlaces places (millionths v / tenTo (6 - places))

/-- Entries of more than twelve characters are too long for values beyond a million, and six
places too few for values below a millionth. -/
def needsExponent (values : List Float) (fixed : List String) : Bool :=
  values.any (fun v => 0 < v.abs ∧ v.abs < 1e-6) ||
    fixed.any (fun entry => 12 < entry.length) && values.any (fun v => 1e6 < v.abs)

def entries (values : List Float) : List String :=
  let fixed := fixedEntries values
  if needsExponent values fixed then values.map (entry (Display.exponential 6)) else fixed

def alignedRight (width : Nat) (s : String) : String :=
  String.ofList (List.replicate (width - s.length) ' ') ++ s

/-- A name on one line. -/
def oneLine (name : String) : List Char :=
  name.toList.flatMap fun c =>
    if c = '\n' then ['\x5c', 'n']
    else if c = '\r' then ['\x5c', 'r']
    else if c = '\t' then ['\x5c', 't']
    else [c]

/-- How many blanks all of the names begin with. -/
def indentation (names : List (List Char)) : Nat :=
  (names.map fun name => (name.takeWhile Text.Blank.isBlank).length).min?.getD 0

/-- The names, each on one line, with one space for the blanks that all of them begin with. -/
def headings (names : List String) : List String :=
  let names := names.map oneLine
  names.map fun name => String.ofList (' ' :: name.drop (indentation names))

/-- The heading and the entries, all aligned to the widest. -/
def cells (heading : String) (values : List Float) : List String :=
  let cells := heading :: entries values
  let width := (cells.map String.length).foldl max 0
  cells.map (alignedRight width)

def lines : List (List String) → List String
  | [] => []
  | [column] => column
  | column :: rest => column.zipWith (fun left right => left ++ " " ++ right) (lines rest)

def text (f : Frame) : String :=
  if f.points.isEmpty then
    "Empty DataFrame\nColumns: [" ++ ", ".intercalate f.names ++ "]\nIndex: []"
  else "\n".intercalate (lines ((headings f.names).zipWith cells (f.columns.map (·.2))))

end InfixCalculator.Frame.Table
