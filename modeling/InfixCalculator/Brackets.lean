import InfixCalculator.Acceptance

/-! Balanced words: the rows of brackets in which every bracket has its partner. -/

namespace InfixCalculator.Brackets

/-- Nothing, or a balanced word in brackets with a balanced word behind it. -/
inductive Balanced : List Char → Prop
  | nil : Balanced []
  | nest {inner rest : List Char} :
    Balanced inner → Balanced rest → Balanced ('(' :: (inner ++ ')' :: rest))

def isBracket (c : Char) : Bool := c = '(' || c = ')'

/-- The brackets of a text in order. -/
def only (text : List Char) : List Char := text.filter isBracket

/-- How many brackets are open behind the text, `depth` of them before it, if none is closed that
is not open. -/
def depth? (depth : Nat) : List Char → Option Nat
  | [] => some depth
  | c :: rest =>
    if c = '(' then depth? (depth + 1) rest
    else if c = ')' then
      match depth with
      | 0 => none
      | depth + 1 => depth? depth rest
    else depth? depth rest

end InfixCalculator.Brackets
