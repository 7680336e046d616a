import InfixCalculator.Evaluation
import InfixCalculator.Frame

/-! Sample points at equal steps from a lower bound, itself included, to an upper bound, itself
excluded. Steps that are lost in rounding never reach the bound; the doubles left on the way are
counted to tell. -/

namespace InfixCalculator

def report (r : Record) : Logged Unit := modify (·.push r)

namespace Sampling

/-- The step is a part of the sum of the bounds' magnitudes. -/
def step (factor xmin xmax : Float) : Float := factor * (xmin.abs + xmax.abs)

/-- How many doubles, at most, lie ahead of `x` in the direction of the step. -/
def room (step x : Float) : Nat :=
  if 0 < step then Number.twoTo 64 - Number.Binary64.rank x else Number.Binary64.rank x

/-- The results at `x`, `x + step` and so on below `stop`, behind those already `done`. -/
def visit {α : Type} (act : Float → Logged α) (step stop x : Float) (done : List α) :
    Logged (List α) :=
  if x < stop then do
    let a ← act x
    if room step (x + step) < room step x then visit act step stop (x + step) (a :: done)
    else throw .endlessSampling
  else pure done.reverse
termination_by room step x

/-- The results at all sample points. A step of zero or without a finite length gives none. -/
def visitAll {α : Type} (act : Float → Logged α) (factor xmin xmax : Float) :
    Logged (List α) := do
  let step := step factor xmin xmax
  if step == 0 || !step.isFinite then
    report (.degenerateDomain xmin xmax step)
    return []
  else visit act step xmax xmin []

/-- The sample points. A controller's x coordinates of a curve are just these. -/
def points (factor xmin xmax : Float) : Logged (List Float) := do
  let xs ← visitAll pure factor xmin xmax
  report (.pointsListed xs.length xmin xmax)
  return xs

/-- The values at the sample points, up to the first failure. A controller's y coordinates of a
curve are just these. -/
def values (s : Settings) (factor : Float) (expression : String) (xmin xmax : Float) :
    Logged (List Float) :=
  visitAll (fun (x : Float) => evaluate s expression x) factor xmin xmax

/-- Whether the pattern stands somewhere in the text. -/
def occurs (pattern : List Char) : List Char → Bool
  | [] => pattern.isEmpty
  | c :: rest => pattern.isPrefixOf (c :: rest) || occurs pattern rest

theorem occurs_iff {pattern text : List Char} : occurs pattern text ↔ pattern <:+: text := by
  induction text with
  | nil => simp [occurs]
  | cons c rest ih => simp [occurs, ih, List.infix_cons_iff]

def containsVariable (s : Settings) (expression : String) : Bool :=
  occurs s.variableMarker.toList expression.toList

/-- The sample points and their values. An expression without the variable is not sampled. -/
def sample (s : Settings) (factor : Float) (expression : String) (xmin xmax : Float) :
    Logged Frame := do
  if containsVariable s expression then
    let xs ← points factor xmin xmax
    let ys ← xs.mapM fun (x : Float) => evaluate s expression x
    return { xName := s.xColumn, yName := s.yColumn, points := xs.zip ys }
  else throw .variableMissing

/-- Like `sample`, with a record of the number of points. -/
def plot (s : Settings) (factor : Float) (expression : String) (xmin xmax : Float) :
    Logged Frame := do
  let frame ← sample s factor expression xmin xmax
  report (.framePlotted expression frame.size)
  return frame

end Sampling

end InfixCalculator
