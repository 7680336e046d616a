import InfixCalculator.Acceptance
import InfixCalculator.CommandLine.Options
import InfixCalculator.Destination
import InfixCalculator.Frame.Csv
import InfixCalculator.Frame.Table
import InfixCalculator.Sampling

/-! What the program does for its arguments: it shows the value of one expression, or samples an
expression and shows or saves the points. Failures that lie in the expression are shown as its
output. -/

namespace InfixCalculator.CommandLine

structure Report where
  exitCode : Nat
  output : String := ""
  /-- Pathnames and contents of the files to write. -/
  files : List (String × String) := []
  usageError : String := ""
  deriving DecidableEq, Repr

namespace Report

def success (output : String) : Report := { exitCode := 0, output }

def failure (message : String) : Report := { exitCode := 1, output := message ++ "\n" }

def usage (e : UsageError) : Report := { exitCode := 2, usageError := e.message }

/-- The report if the working directory is empty, with the files that are then in it. -/
def inEmptyDirectory (r : Report) : Except Failure Report := do
  for (path, _) in r.files do
    if let some fault := Destination.fault? path then throw (.unsaved fault)
  return { r with
    files := r.files.filterMap fun (path, text) =>
      (Destination.localName? path).map (·, text) }

end Report

def helpText : String :=
  "Single-variable expression calculator\n\n" ++
    "  --expression EXPRESSION   Expression to evaluate, e.g. 'sin(x)+2^3'\n" ++
    "  --x X                     Value bound to the variable x\n" ++
    "  --precision PRECISION     Decimal places of the printed result (default: 7)\n" ++
    "  --plot XMIN XMAX          Sample the expression on [XMIN, XMAX)\n" ++
    "  --output_path PATH        CSV file for the sampled x/y columns\n"

def checked (s : Settings) : Logged Unit :=
  match s.check with
  | .ok () => pure ()
  | .error failure => throw failure

def showing (run : Logged Report) : Logged Report := fun log =>
  match run log with
  | .error failure log =>
    if failure.isReported then .ok (.failure failure.message) log else .error failure log
  | done => done

/-- Shows the value of an expression that passes the checks. -/
def calculate (s : Settings) (i : Invocation) : Logged Report := do
  match i.expression?.filter (Acceptance.accepts s.maxLength) with
  | some expression =>
    let value ← evaluate s expression i.x?
    match resultText s i.precision value with
    | .ok text => return .success (text ++ "\n")
    | .error failure => throw failure
  | none => return .failure "Error in expression"

/-- Samples the expression and saves the points, or shows them if no file is named. -/
def plot (s : Settings) (i : Invocation) (xmin xmax : Float) : Logged Report := do
  report (.samplingStarted i.expression? xmin xmax)
  let some expression := i.expression? | throw .variableMissing
  let frame ← Sampling.plot s s.stepFactor expression xmin xmax
  report (.pointsSampled frame.size)
  let path := i.outputPath?.getD ""
  if path.isEmpty then return .success (Frame.Table.text frame ++ "\n")
  else
    report (.fileSaved path)
    return { exitCode := 0, files := [(path, Frame.Csv.text frame)] }

def execute (s : Settings) (i : Invocation) : Logged Report := do
  checked s
  showing <|
    match i.plot? with
    | none => calculate s i
    | some (xmin, xmax) => plot s i xmin xmax

def run (s : Settings) (arguments : List String) : Logged Report :=
  match Request.ofArguments arguments with
  | .ok (.run invocation) => execute s invocation
  | .ok .help => pure (.success helpText)
  | .error e => pure (.usage e)

/-- A run from the start, and its records without those for debugging. -/
def outcome (s : Settings) (arguments : List String) : Except Failure Report × Log :=
  match run s arguments #[] with
  | .ok report log => (.ok report, log.filter Record.isBrief)
  | .error failure log => (.error failure, log.filter Record.isBrief)

/-- What a run in an empty directory leaves behind. -/
def answer (s : Settings) (arguments : List String) : Except Failure Report :=
  (outcome s arguments).1.bind Report.inEmptyDirectory

end InfixCalculator.CommandLine
