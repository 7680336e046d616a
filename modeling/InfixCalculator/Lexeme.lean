import InfixCalculator.Cursor
import InfixCalculator.Numeral
import InfixCalculator.Settings
import InfixCalculator.Token

/-! The pieces that an expression is read in. What a piece is depends on the text around it and on
whether an operand is expected, never on a value. -/

namespace InfixCalculator

inductive Lexeme where
  | numeral (n : Numeral)
  /-- A numeral behind an exponent mark and a sign. -/
  | scaling (negative : Bool) (n : Numeral)
  | variableMark
  /-- An exponent mark and its sign, which by themselves have no effect. -/
  | exponentMark (sign : Option Char)
  /-- A token, and whether an operand was expected in its place. -/
  | token (t : Token) (operandExpected : Bool)
  deriving DecidableEq, Repr

def isSign (c : Char) : Bool := c = '+' || c = '-'

/-- The operator, function or bracket ahead. -/
def Token.read (operandExpected : Bool) (place : Cursor) : Except Failure Token :=
  match place.ahead with
  | [] => .error .pastEnd
  | c :: rest =>
    match startingWith? operandExpected c rest.head? with
    | some t => .ok t
    | none => .error (.unknownSymbol c place.index)

def maxIndex : Nat := 0x7FFFFFFFFFFFFFFF

/-- The operator, function or bracket at an index. -/
def Token.readAt (operandExpected : Bool) (text : List Char) (index : Nat) :
    Except Failure Token :=
  if maxIndex < index then .error .indexTooLarge
  else read operandExpected (Cursor.ofIndex text index)

namespace Lexeme

/-- Whether an exponent mark and a sign have just been passed, and if so, whether it is a minus.
-/
def pendingSign? (s : Settings) : List Char → Option Bool
  | sign :: mark :: _ => if isSign sign && s.isExponent mark then some (sign == '-') else none
  | _ => none

/-- The numeral ahead, an exponent if an exponent mark and a sign precede it. -/
def readNumeral (s : Settings) (place : Cursor) : Lexeme :=
  match pendingSign? s place.passed with
  | some negative => scaling negative (Numeral.scan place.ahead)
  | none => numeral (Numeral.scan place.ahead)

/-- The piece ahead. Digits are looked for first, then the variable, then the exponent mark. -/
def read (s : Settings) (operandExpected : Bool) (place : Cursor) : Except Failure Lexeme :=
  match place.ahead with
  | [] => .error .pastEnd
  | c :: rest =>
    if c.isDigit then .ok (readNumeral s place)
    else if s.isVariable c then .ok variableMark
    else if s.isExponent c then .ok (exponentMark (rest.head?.filter isSign))
    else (Token.read operandExpected place).map fun t => token t operandExpected

/-- How many characters the piece takes up. A name may reach beyond the end of the text. -/
def width : Lexeme → Nat
  | numeral n | scaling _ n => n.width
  | variableMark => 1
  | exponentMark sign => if sign.isSome then 2 else 1
  | token t _ => t.width

/-- Whether an operand is expected behind the piece. -/
def expectsOperand (operandExpected : Bool) : Lexeme → Bool
  | numeral _ | scaling _ _ | variableMark => false
  | exponentMark _ => operandExpected
  | token t _ => t.expectsOperand

end Lexeme

end InfixCalculator
