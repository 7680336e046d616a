/-! The operators, functions and brackets of an expression. A name is recognised from its first
two characters, so a text may be shorter than the symbol it is read as. -/

namespace InfixCalculator

/-- Operators between two operands. -/
inductive BinaryOp where
  | add | sub | mul | div | mod | pow
  deriving DecidableEq, Repr

/-- Operators in front of one operand: the functions and the sign. -/
inductive PrefixOp where
  | ln | log | sin | cos | tan | asin | acos | atan | sqrt | neg
  deriving DecidableEq, Repr

inductive Token where
  | binary (op : BinaryOp)
  | unary (op : PrefixOp)
  | openBracket
  | closeBracket
  deriving DecidableEq, Repr

namespace BinaryOp

def symbol : BinaryOp → String
  | add => "+"
  | sub => "-"
  | mul => "*"
  | div => "/"
  | mod => "mod"
  | pow => "^"

/-- A tighter operator has the higher priority. -/
def priority : BinaryOp → Nat
  | add | sub => 1
  | mul | div | mod => 2
  | pow => 3

def label : BinaryOp → String
  | add => "ADD"
  | sub => "SUB"
  | mul => "MULT"
  | div => "DIV"
  | mod => "MOD"
  | pow => "POW"

end BinaryOp

namespace PrefixOp

def symbol : PrefixOp → String
  | ln => "ln"
  | log => "log"
  | sin => "sin"
  | cos => "cos"
  | tan => "tan"
  | asin => "asin"
  | acos => "acos"
  | atan => "atan"
  | sqrt => "sqrt"
  | neg => "-"

/-- The sign binds tighter than the functions. -/
def priority : PrefixOp → Nat
  | neg => 5
  | _ => 4

def label : PrefixOp → String
  | ln => "LN"
  | log => "LOG"
  | sin => "SIN"
  | cos => "COS"
  | tan => "TAN"
  | asin => "ASIN"
  | acos => "ACOS"
  | atan => "ATAN"
  | sqrt => "SQRT"
  | neg => "UNARY_MINUS"

end PrefixOp

namespace Token

/-- Every token once, brackets first. -/
def all : List Token :=
  [openBracket, closeBracket] ++
    [BinaryOp.add, .sub, .mul, .div, .mod, .pow].map binary ++
    [PrefixOp.ln, .log, .sin, .cos, .tan, .asin, .acos, .atan, .sqrt, .neg].map unary

/-- The spelling in an expression. The sign is spelled like the subtraction. -/
def symbol : Token → String
  | binary op => op.symbol
  | unary op => op.symbol
  | openBracket => "("
  | closeBracket => ")"

/-- Brackets are looser than every operator. -/
def priority : Token → Nat
  | binary op => op.priority
  | unary op => op.priority
  | openBracket | closeBracket => 0

def arity : Token → Nat
  | binary _ => 2
  | unary _ => 1
  | openBracket | closeBracket => 0

/-- The name of the operation in messages. -/
def label : Token → String
  | binary op => op.label
  | unary op => op.label
  | openBracket => "OPEN_BRACKET"
  | closeBracket => "CLOSE_BRACKET"

/-- The name of the operation in lower case. -/
def lowerLabel (t : Token) : String := t.label.toLower

/-- The symbol, but for the sign, which shares its symbol, a word. -/
def key : Token → String
  | unary .neg => "neg"
  | t => t.symbol

/-- How many characters the token takes up when it is read. -/
def width (t : Token) : Nat := t.symbol.length

def describe (t : Token) : String :=
  "Token(" ++ t.label ++ ", priority=" ++ toString t.priority ++
    ", arity=" ++ toString t.arity ++ ")"

def isUnary : Token → Bool
  | unary _ => true
  | _ => false

/-- After every token but a closing bracket an operand comes next. -/
def expectsOperand (t : Token) : Bool := t != closeBracket

def single? : Char → Option Token
  | '(' => some openBracket
  | ')' => some closeBracket
  | '+' => some (binary .add)
  | '-' => some (binary .sub)
  | '*' => some (binary .mul)
  | '/' => some (binary .div)
  | '^' => some (binary .pow)
  | _ => none

/-- Names by their first two characters. -/
def named? : Char → Option Char → Option Token
  | 'l', some 'n' => some (unary .ln)
  | 'l', some 'o' => some (unary .log)
  | 's', some 'i' => some (unary .sin)
  | 's', some 'q' => some (unary .sqrt)
  | 'c', some 'o' => some (unary .cos)
  | 't', some 'a' => some (unary .tan)
  | 'a', some 's' => some (unary .asin)
  | 'a', some 'c' => some (unary .acos)
  | 'a', some 't' => some (unary .atan)
  | 'm', some 'o' => some (binary .mod)
  | _, _ => none

/-- The token that starts with `c`. Where an operand is expected, `-` is the sign. -/
def startingWith? (operandExpected : Bool) (c : Char) (next : Option Char) : Option Token :=
  if c = '-' ∧ operandExpected then some (unary .neg) else (single? c).or (named? c next)

theorem width_pos (t : Token) : 0 < t.width := by
  match t with
  | binary op => cases op <;> decide
  | unary op => cases op <;> decide
  | openBracket => decide
  | closeBracket => decide

end Token

end InfixCalculator
