import InfixCalculator.Number.Literal
import InfixCalculator.Text.Blank
import InfixCalculator.Text.DecimalDigit

/-! Numbers given as arguments: blanks around them, underscores between their digits and the
digits of all scripts are accepted. -/

namespace InfixCalculator.CommandLine.Argument

/-- In a text that is not all ASCII, wide blanks and digits become ASCII ones. -/
def simplified (cs : List Char) : List Char :=
  if cs.all fun c => c.toNat < 0x80 then cs
  else cs.map fun c => if Text.Blank.isWide c then ' ' else Text.DecimalDigit.toAscii c

/-- The text without its underscores, if each of them stands between two digits. -/
def withoutUnderscores : Option Char → List Char → Option (List Char)
  | _, [] => some []
  | previous, c :: rest =>
    if c = '_' then
      if previous.any Char.isDigit && rest.head?.any Char.isDigit then
        withoutUnderscores (some c) rest
      else none
    else (withoutUnderscores (some c) rest).map (c :: ·)

def plain? (text : String) : Option (List Char) :=
  withoutUnderscores none (Text.Blank.trim Text.Blank.isAscii (simplified text.toList))

def float? (text : String) : Option Float := (plain? text).bind Number.Literal.float?

/-- A whole number of at most 4300 digits. -/
def int? (text : String) : Option Int := do
  let cs ← plain? text
  guard ((Number.Literal.splitSign cs).2.length ≤ 4300)
  Number.Literal.integer? cs

/-- Whether the text is a minus and digits, or a minus, digits or none, a point and digits. A line
end may follow. -/
def isNegativeNumber (text : List Char) : Bool :=
  match text with
  | '-' :: rest =>
    let whole := rest.takeWhile Text.DecimalDigit.isDecimalDigit
    match rest.dropWhile Text.DecimalDigit.isDecimalDigit with
    | '.' :: fraction =>
      let digits := fraction.takeWhile Text.DecimalDigit.isDecimalDigit
      !digits.isEmpty && isEnd (fraction.dropWhile Text.DecimalDigit.isDecimalDigit)
    | last => !whole.isEmpty && isEnd last
  | _ => false
where
  isEnd (cs : List Char) : Bool := cs.isEmpty || cs = ['\n']

end InfixCalculator.CommandLine.Argument
