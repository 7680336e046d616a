import InfixCalculator.Failure
import InfixCalculator.Number.Display
import InfixCalculator.Token

/-! What a calculation reports while it runs. -/

namespace InfixCalculator

inductive Level where
  | debug | info | warning
  deriving DecidableEq, Repr

def Level.label : Level → String
  | debug => "DEBUG"
  | info => "INFO"
  | warning => "WARNING"

inductive Record where
  /-- A bracket was left on the operator stack and dropped. -/
  | bracketDropped (token : Token)
  /-- The operand stack did not hold exactly one value at the end. -/
  | operandCount (count : Nat)
  | degenerateDomain (xmin xmax step : Float)
  | pointsListed (count : Nat) (xmin xmax : Float)
  | framePlotted (expression : String) (rows : Nat)
  | samplingStarted (expression? : Option String) (xmin xmax : Float)
  | pointsSampled (count : Nat)
  | fileSaved (path : String)
  deriving DecidableEq

/-- The records of a run, oldest first. -/
abbrev Log := Array Record

namespace Record

def level : Record → Level
  | bracketDropped _ | pointsListed .. | framePlotted .. => .debug
  | samplingStarted .. | pointsSampled _ | fileSaved _ => .info
  | operandCount _ | degenerateDomain .. => .warning

/-- The part of the program that reports. -/
def source : Record → String
  | bracketDropped _ => "core.operators"
  | operandCount _ => "core.infix_evaluator"
  | degenerateDomain .. | pointsListed .. => "plot.sampler"
  | framePlotted .. => "controller.controller"
  | samplingStarted .. | pointsSampled _ | fileSaved _ => "main"

def message : Record → String
  | bracketDropped token => "Discarding unmatched " ++ token.label ++ " during reduction"
  | operandCount count =>
    "Operand stack has " ++ toString count ++ " elements after evaluation, expected 1"
  | degenerateDomain xmin xmax step =>
    "Degenerate sample domain [" ++ Number.Display.shortest xmin ++ ", " ++
      Number.Display.shortest xmax ++ "], step=" ++ Number.Display.shortest step
  | pointsListed count xmin xmax =>
    "Sampled " ++ toString count ++ " x coordinates on [" ++ Number.Display.shortest xmin ++ ", " ++
      Number.Display.shortest xmax ++ ")"
  | framePlotted expression rows =>
    "Plot data for " ++ String.ofList (expression.toList.take 50) ++ ": " ++ toString rows ++
      " rows"
  | samplingStarted expression? xmin xmax =>
    "Sampling '" ++ expression?.getD "[]" ++ "' on [" ++ Number.Display.shortest xmin ++ ", " ++
      Number.Display.shortest xmax ++ ")"
  | pointsSampled count => "Sampled " ++ toString count ++ " points"
  | fileSaved path => "Saving plot data to " ++ path

def line (r : Record) : String := r.level.label ++ " " ++ r.source ++ ": " ++ r.message

/-- Debugging records are left out where only the course of the program is of interest. -/
def isBrief (r : Record) : Bool := r.level != .debug

end Record

end InfixCalculator
