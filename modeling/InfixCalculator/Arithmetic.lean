import InfixCalculator.Failure
import InfixCalculator.Number.Binary64
import InfixCalculator.Token

/-! The values of operators. Arguments outside an operator's domain are a fault; no number in
gives no number out, but for the two powers that are one whatever the other argument is. -/

namespace InfixCalculator

/-- `left` to the power `right`. Anything to the power zero, and one to any power, is one. -/
def power (left right : Float) : Float :=
  if right == 0 || left == 1 then 1
  else if left.isNaN || right.isNaN then Number.nan
  else Float.pow left right

/-- A function of the mathematics library on numbers. -/
def onNumbers (f : Float → Float) (value : Float) : Float :=
  if value.isNaN then Number.nan else f value

def BinaryOp.apply (op : BinaryOp) (left right : Float) : Except DomainFault Float :=
  match op with
  | add => .ok (left + right)
  | sub => .ok (left - right)
  | mul => .ok (left * right)
  | div => if right == 0 then .error .zeroDivisor else .ok (left / right)
  | mod => .ok (Number.remainder left right)
  | pow => .ok (power left right)

namespace PrefixOp

def inUnitRange (value : Float) : Bool := !(1 < value || value < -1)

def apply (op : PrefixOp) (value : Float) : Except DomainFault Float :=
  match op with
  | ln => .ok (onNumbers Float.log value)
  | log => .ok (onNumbers Float.log10 value)
  | sin => .ok (onNumbers Float.sin value)
  | cos => .ok (onNumbers Float.cos value)
  | tan => .ok (onNumbers Float.tan value)
  | asin =>
    if inUnitRange value then .ok (onNumbers Float.asin value) else .error .outsideUnitRange
  | acos =>
    if inUnitRange value then .ok (onNumbers Float.acos value) else .error .outsideUnitRange
  | atan => .ok (onNumbers Float.atan value)
  | sqrt => if value < 0 then .error .negativeRadicand else .ok value.sqrt
  | neg => .ok (-value)

end PrefixOp

/-- `base · 10 ^ ±exponent`. -/
def scale (base : Float) (negative : Bool) (exponent : Float) : Float :=
  base * power 10 (if negative then -exponent else exponent)

end InfixCalculator
