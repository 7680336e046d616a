import InfixCalculator.Text.Printable

/-! Text shown in quotes, so that every character can be told from the output. -/

namespace InfixCalculator.Text.Quoted

/-- The code point in hexadecimal with the given number of digits. -/
def hex (width : Nat) (n : Nat) : String :=
  let digits := String.ofList (Nat.toDigits 16 n)
  String.ofList (List.replicate (width - digits.length) '0') ++ digits

/-- The escape of a code point. -/
def codePoint (c : Char) : String :=
  if c.toNat < 0x100 then "\\x" ++ hex 2 c.toNat
  else if c.toNat < 0x10000 then "\\u" ++ hex 4 c.toNat
  else "\\U" ++ hex 8 c.toNat

/-- A character inside quotes. The quote itself, the backslash and what is not printable are
escaped. -/
def escape (quote c : Char) : String :=
  if c = quote ∨ c = '\x5c' then String.ofList ['\x5c', c]
  else if c = '\n' then "\\n"
  else if c = '\r' then "\\r"
  else if c = '\t' then "\\t"
  else if Printable.isPrintable c then c.toString
  else codePoint c

/-- Single quotes, unless the text holds one and no double quote. -/
def quoteFor (s : String) : Char :=
  if s.contains '\x27' && !s.contains '\x22' then '\x22' else '\x27'

def encode (s : String) : String :=
  let quote := quoteFor s
  quote.toString ++ String.join (s.toList.map (escape quote)) ++ quote.toString

end InfixCalculator.Text.Quoted
