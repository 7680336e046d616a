import InfixCalculator.Destination.Fault

/-! Why a calculation ends without a result. -/

namespace InfixCalculator

/-- Arguments outside the domain of an operator. -/
inductive DomainFault where
  | zeroDivisor
  | outsideUnitRange
  | negativeRadicand
  deriving DecidableEq, Repr

/-- Settings that the program does not run under. -/
inductive SettingsFault where
  | variableMarker
  | exponentMarker
  | equalMarkers
  | maxLength
  | precision
  | stepFactor
  deriving DecidableEq, Repr

/-- What keeps a number of places from being used. -/
inductive PlacesFault where
  | missing
  | tooManyDigits
  | tooMany
  deriving DecidableEq, Repr

inductive Failure where
  | domain (fault : DomainFault)
  | unknownSymbol (symbol : Char) (position : Nat)
  | variableMissing
  | noNumber (text : String)
  /-- The variable is used without a value. -/
  | variableUnset
  | pastEnd
  | indexTooLarge
  | places (fault : PlacesFault)
  | unsaved (fault : SaveFault)
  | settings (fault : SettingsFault)
  /-- The sample points never reach the upper bound. -/
  | endlessSampling
  deriving DecidableEq, Repr

def DomainFault.message : DomainFault → String
  | zeroDivisor => "can't divide by zero"
  | outsideUnitRange => "value in asin or acos must be in range[-1; 1]"
  | negativeRadicand => "negative in sqrt"

def SettingsFault.message : SettingsFault → String
  | variableMarker => "变量标记必须是单个字符"
  | exponentMarker => "指数标记必须是单个字符"
  | maxLength => "表达式最长255个字符"
  | stepFactor => "步长系数必须在(0, 1)之间"
  | equalMarkers | precision => ""

def PlacesFault.message : PlacesFault → String
  | missing => "Format specifier missing precision"
  | tooManyDigits => "Too many decimal digits in format string"
  | tooMany => "precision too big"

namespace Failure

def message : Failure → String
  | domain fault => fault.message
  | unknownSymbol symbol position =>
    "unknown symbol '" ++ symbol.toString ++ "' at position " ++ toString position
  | variableMissing => "Need X"
  | noNumber text => "could not convert string to float: " ++ Text.Quoted.encode text
  | variableUnset => "float() argument must be a string or a real number, not 'list'"
  | pastEnd => "string index out of range"
  | indexTooLarge => "cannot fit 'int' into an index-sized integer"
  | places fault => fault.message
  | unsaved fault => fault.message
  | settings fault => fault.message
  | endlessSampling => "sampling does not end"

/-- Whether the cause lies in the expression or its arguments, so that a user is told the message.
-/
def isReported : Failure → Bool
  | domain _ | unknownSymbol _ _ | variableMissing => true
  | _ => false

end Failure

end InfixCalculator
