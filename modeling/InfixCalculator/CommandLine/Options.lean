import InfixCalculator.CommandLine.Argument
import InfixCalculator.ResultText
import InfixCalculator.Text.Quoted

/-! The options of the command line. Every argument is first told to be an option or a value; then
the options take the values behind them, in order. The last of a repeated option counts. -/

namespace InfixCalculator.CommandLine

inductive Flag where
  | help | expression | x | precision | plot | outputPath
  deriving DecidableEq, Repr

namespace Flag

def spellings : Flag → List String
  | help => ["-h", "--help"]
  | expression => ["--expression"]
  | x => ["--x"]
  | precision => ["--precision"]
  | plot => ["--plot"]
  | outputPath => ["--output_path"]

def count : Flag → Nat
  | help => 0
  | plot => 2
  | _ => 1

def title (f : Flag) : String := "/".intercalate f.spellings

def spelled : List (String × Flag) :=
  [help, expression, x, precision, plot, outputPath].flatMap fun f => f.spellings.map (·, f)

def named? (s : String) : Option Flag := spelled.lookup s

end Flag

inductive UsageError where
  | ambiguous (argument : String) (candidates : List String)
  | valuesMissing (f : Flag)
  | valueIgnored (f : Flag) (value : String)
  | noFloat (f : Flag) (value : String)
  | noInt (f : Flag) (value : String)
  | expressionMissing
  | unrecognized (arguments : List String)
  deriving DecidableEq, Repr

namespace UsageError

def text : UsageError → String
  | ambiguous argument candidates =>
    "ambiguous option: " ++ argument ++ " could match " ++ ", ".intercalate candidates
  | valuesMissing f =>
    "argument " ++ f.title ++ ": expected " ++
      if f.count = 1 then "one argument" else toString f.count ++ " arguments"
  | valueIgnored f value =>
    "argument " ++ f.title ++ ": ignored explicit argument " ++ Text.Quoted.encode value
  | noFloat f value =>
    "argument " ++ f.title ++ ": invalid float value: " ++ Text.Quoted.encode value
  | noInt f value =>
    "argument " ++ f.title ++ ": invalid int value: " ++ Text.Quoted.encode value
  | expressionMissing => "the following arguments are required: --expression"
  | unrecognized arguments => "unrecognized arguments: " ++ " ".intercalate arguments

/-- The text up to the line ends behind it. -/
def message (e : UsageError) : String :=
  String.ofList (e.text.toList.reverse.dropWhile (· = '\n')).reverse

end UsageError

/-! ## What an argument is -/

/-- What stands in one argument with its option. -/
inductive Attached where
  | none
  | value (text : String)
  /-- The characters behind a one-letter option. -/
  | cluster (letters : List Char)
  deriving DecidableEq, Repr

inductive Word where
  | value
  | separator
  | option (f : Flag) (attached : Attached)
  | unknown
  deriving DecidableEq, Repr

def splitEquals (cs : List Char) : String × Attached :=
  let start := cs.takeWhile (· != '=')
  match cs.dropWhile (· != '=') with
  | [] => (String.ofList cs, .none)
  | _ :: value =>
    (String.ofList start,
      if start.length = 2 ∧ start ≠ ['-', '-'] then .cluster value
      else .value (String.ofList value))

/-- The options that a text beginning with a minus abbreviates. -/
def candidates (cs : List Char) : List (String × Flag × Attached) :=
  match cs with
  | '-' :: '-' :: _ =>
    let (start, attached) := splitEquals cs
    (Flag.spelled.filter fun (s, _) => start.toList.isPrefixOf s.toList).map fun (s, f) =>
      (s, f, attached)
  | _ =>
    (Flag.spelled.filter fun (s, _) => s.toList = cs.take 2).map fun (s, f) =>
      (s, f, .cluster (cs.drop 2))

def Word.ofArgument (argument : String) : Except UsageError Word :=
  let cs := argument.toList
  if argument = "--" then .ok .separator
  else if cs.head? ≠ some '-' then .ok .value
  else if let some f := Flag.named? argument then .ok (.option f .none)
  else if cs.length = 1 then .ok .value
  else
    let (start, attached) := splitEquals cs
    match Flag.named? start with
    | some f => .ok (.option f attached)
    | none =>
      match candidates cs with
      | [(_, f, attached)] => .ok (.option f attached)
      | _ :: _ :: _ => .error (.ambiguous argument ((candidates cs).map (·.1)))
      | [] =>
        if Argument.isNegativeNumber cs || cs.contains ' ' then .ok .value else .ok .unknown

/-- Every argument with what it is. Behind `--` all are values. -/
def words : List String → Except UsageError (List (String × Word))
  | [] => .ok []
  | argument :: rest => do
    match ← Word.ofArgument argument with
    | .separator => return (argument, .separator) :: rest.map (·, .value)
    | word => return (argument, word) :: (← words rest)

/-! ## What the options say -/

structure Invocation where
  /-- Missing if the option was given without a value. -/
  expression? : Option String := none
  x? : Option Float := some 0
  precision : Precision := .configured
  plot? : Option (Float × Float) := none
  outputPath? : Option String := none

inductive Request where
  | help
  | run (invocation : Invocation)

inductive Halt where
  | usage (e : UsageError)
  | help

structure Progress where
  invocation : Invocation := {}
  hasExpression : Bool := false
  /-- An option and the values it has, the last first, while it lacks some. -/
  waiting : Option (Flag × List String) := none
  extras : List String := []

namespace Progress

def float (f : Flag) (value : String) : Except Halt Float :=
  match Argument.float? value with
  | some v => .ok v
  | none => .error (.usage (.noFloat f value))

def int (f : Flag) (value : String) : Except Halt Int :=
  match Argument.int? value with
  | some n => .ok n
  | none => .error (.usage (.noInt f value))

def set (p : Progress) (f : Flag) (values : List String) : Except Halt Progress := do
  let i := p.invocation
  match f, values with
  | .expression, [value] =>
    return { p with invocation := { i with expression? := some value }, hasExpression := true }
  | .x, [value] => return { p with invocation := { i with x? := some (← float f value) } }
  | .precision, [value] =>
    return { p with invocation := { i with precision := .exactly (← int f value) } }
  | .plot, [first, second] =>
    let xmin ← float f first
    let xmax ← float f second
    return { p with invocation := { i with plot? := some (xmin, xmax) } }
  | .outputPath, [value] => return { p with invocation := { i with outputPath? := some value } }
  | .help, _ => throw .help
  | _, _ => throw (.usage (.valuesMissing f))

/-- Leaves an option that takes one value without any. -/
def setBlank (p : Progress) (f : Flag) : Progress :=
  let i := p.invocation
  match f with
  | .expression => { p with invocation := { i with expression? := none }, hasExpression := true }
  | .x => { p with invocation := { i with x? := none } }
  | .precision => { p with invocation := { i with precision := .blank } }
  | .outputPath => { p with invocation := { i with outputPath? := none } }
  | .help | .plot => p

/-- What is left of the letters behind `-h`, each of which spells an option again, from the first
that does not. There is no other letter than `h`. -/
def unknownLetters (letters : List Char) : List Char := letters.dropWhile (· = 'h')

/-- An option with what is attached to it. An attached `--` stands for no value. -/
def openOption (p : Progress) (f : Flag) : Attached → Except Halt Progress
  | .none => if f.count = 0 then p.set f [] else return { p with waiting := some (f, []) }
  | .value text =>
    match f.count with
    | 0 => throw (.usage (.valueIgnored f text))
    | 1 => if text = "--" then return p.setBlank f else p.set f [text]
    | _ => throw (.usage (.valuesMissing f))
  | .cluster letters =>
    let rest := unknownLetters letters
    if letters.isEmpty || !rest.isEmpty then
      throw (.usage (.valueIgnored f (String.ofList rest)))
    else p.set f []

def add (p : Progress) (argument : String) (word : Word) : Except Halt Progress :=
  match p.waiting, word with
  | some (f, values), .value =>
    if values.length + 1 = f.count then
      { p with waiting := none }.set f (argument :: values).reverse
    else return { p with waiting := some (f, argument :: values) }
  | some (f, _), _ => throw (.usage (.valuesMissing f))
  | none, .option f attached => p.openOption f attached
  | none, _ => return { p with extras := argument :: p.extras }

def finish (p : Progress) : Except Halt Invocation :=
  if let some (f, _) := p.waiting then throw (.usage (.valuesMissing f))
  else if !p.hasExpression then throw (.usage .expressionMissing)
  else if !p.extras.isEmpty then throw (.usage (.unrecognized p.extras.reverse))
  else return p.invocation

end Progress

def Request.ofArguments (arguments : List String) : Except UsageError Request := do
  let words ← words arguments
  let progress := words.foldlM (fun (p : Progress) (argument, word) => p.add argument word) {}
  match progress.bind Progress.finish with
  | .ok invocation => return .run invocation
  | .error .help => return .help
  | .error (.usage e) => throw e

end InfixCalculator.CommandLine
