import InfixCalculator.Reading

/-! Where the pieces of an expression stand. Some begin an operand, the others need one in front of
them; in a well-formed expression they take turns accordingly. Nothing keeps other texts from being
read and calculated. -/

namespace InfixCalculator

namespace Lexeme

/-- Whether an operand begins with the piece. All other pieces go behind one. -/
def beginsOperand : Lexeme → Bool
  | numeral _ | variableMark | token .openBracket _ | token (.unary _) _ => true
  | scaling _ _ | exponentMark _ | token .closeBracket _ | token (.binary _) _ => false

/-- Whether an operand can end with the piece, or a pair of brackets does. -/
def endsOperand : Lexeme → Bool
  | numeral _ | scaling _ _ | variableMark | token .closeBracket _ => true
  | exponentMark _ | token .openBracket _ | token (.unary _) _ | token (.binary _) _ => false

def isScaling : Lexeme → Bool
  | scaling _ _ => true
  | numeral _ | variableMark | exponentMark _ | token _ _ => false

end Lexeme

namespace Placement

/-- Whether an operand is expected behind the pieces. -/
def expects (operandExpected : Bool) : List Lexeme → Bool
  | [] => operandExpected
  | l :: rest => expects (l.expectsOperand operandExpected) rest

/-- Whether an operand begins where none is expected. -/
def crowded (operandExpected : Bool) : List Lexeme → Bool
  | [] => false
  | l :: rest =>
    (l.beginsOperand && !operandExpected) || crowded (l.expectsOperand operandExpected) rest

/-- Whether an operand begins directly behind a numeral, the variable or a closing bracket. -/
def Abuts (ls : List Lexeme) : Prop :=
  ∃ front last next rest, ls = front ++ last :: next :: rest ∧ last.endsOperand ∧
    next.beginsOperand

/-- Whether a piece that goes behind an operand stands where one is still expected. -/
def gapped (operandExpected : Bool) : List Lexeme → Bool
  | [] => false
  | l :: rest =>
    (!l.beginsOperand && operandExpected) || gapped (l.expectsOperand operandExpected) rest

/-- Whether an exponent mark is not followed by an exponent. -/
def strayMark : List Lexeme → Bool
  | [] => false
  | .exponentMark _ :: rest => !rest.head?.any Lexeme.isScaling || strayMark rest
  | _ :: rest => strayMark rest

/-- Whether all pieces are in their place, from where an operand is expected or not to where one
is expected or not. -/
structure Fits (before after : Bool) (ls : List Lexeme) : Prop where
  not_crowded : crowded before ls = false
  not_gapped : gapped before ls = false
  not_strayMark : strayMark ls = false
  expects_eq : expects before ls = after

end Placement

end InfixCalculator
