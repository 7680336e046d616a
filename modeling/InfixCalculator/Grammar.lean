import InfixCalculator.Arithmetic
import InfixCalculator.Numeral

/-! The expressions that are well formed, as trees, and the texts that spell them. Each kind of
text has a level; a tighter one can stand wherever a looser one can. Sums and differences are the
loosest, then come products, quotients and remainders, then powers; all of them group to the left.
-/

namespace InfixCalculator

/-- A numeral as it stands in an expression: it begins with a digit. -/
structure Numeral.IsLiteral (n : Numeral) : Prop where
  whole_ne_nil : n.whole ≠ []
  isDigit : ∀ c ∈ n.digits, c.isDigit

inductive Tree where
  | numeral (n : Numeral)
  | variableMark
  | scaled (base : Tree) (negative : Bool) (exponent : Numeral)
  | unary (op : PrefixOp) (operand : Tree)
  | binary (op : BinaryOp) (left right : Tree)
  deriving DecidableEq, Repr

namespace Tree

/-- The value at `x`, with the first fault of the left operand, the right operand and the node. -/
def value (x : Float) : Tree → Except DomainFault Float
  | numeral n => .ok (n.value?.getD Number.nan)
  | variableMark => .ok x
  | scaled base negative exponent => do
    return scale (← base.value x) negative (exponent.value?.getD Number.nan)
  | unary op operand => do op.apply (← operand.value x)
  | binary op left right => do
    let a ← left.value x
    let b ← right.value x
    op.apply a b

end Tree

namespace Grammar

/-- The level of a binary operator with its operands. -/
def levelOf : BinaryOp → Nat
  | .add | .sub => 1
  | .mul | .div | .mod => 2
  | .pow => 3

/-- The level of signs and functions with what they stand in front of. -/
def prefixed : Nat := 4

/-- The level of operands with the powers of ten behind them. -/
def scaled : Nat := 5

/-- The level of numerals, the variable and bracketed expressions. -/
def primary : Nat := 6

/-- The level of whole expressions. -/
def whole : Nat := 1

def signOf (negative : Bool) : Char := if negative then '-' else '+'

/-- The texts of each level and the trees that they spell. -/
inductive Spells : Nat → List Char → Tree → Prop
  | numeral {n : Numeral} : n.IsLiteral → Spells primary n.text (.numeral n)
  | variableMark : Spells primary ['x'] .variableMark
  | bracketed {text : List Char} {t : Tree} :
    Spells whole text t → Spells primary ('(' :: (text ++ [')'])) t
  | scaled {text : List Char} {t : Tree} {n : Numeral} (negative : Bool) :
    Spells scaled text t → n.IsLiteral →
      Spells scaled (text ++ 'E' :: signOf negative :: n.text) (.scaled t negative n)
  | unary {text : List Char} {t : Tree} (op : PrefixOp) :
    Spells prefixed text t → Spells prefixed (op.symbol.toList ++ text) (.unary op t)
  | binary {left right : List Char} {a b : Tree} (op : BinaryOp) :
    Spells (levelOf op) left a → Spells (levelOf op + 1) right b →
      Spells (levelOf op) (left ++ op.symbol.toList ++ right) (.binary op a b)
  | tighter {level : Nat} {text : List Char} {t : Tree} :
    Spells (level + 1) text t → Spells level text t

end Grammar

/-- Whether the text is a well-formed expression. -/
def IsWellFormed (text : List Char) : Prop := ∃ t, Grammar.Spells Grammar.whole text t

end InfixCalculator
