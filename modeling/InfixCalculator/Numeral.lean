import InfixCalculator.Number.Decimal

/-! Numerals of an expression: digits with at most one point. A numeral without a digit has no
value. -/

namespace InfixCalculator

structure Numeral where
  whole : List Char
  /-- The digits behind the point, if there is one. -/
  fraction : Option (List Char)
  deriving DecidableEq, Repr

namespace Numeral

/-- The longest numeral at the front of the text; it may be empty. -/
def scan (cs : List Char) : Numeral :=
  { whole := cs.takeWhile Char.isDigit
    fraction :=
      match cs.dropWhile Char.isDigit with
      | '.' :: rest => some (rest.takeWhile Char.isDigit)
      | _ => none }

def text (n : Numeral) : List Char :=
  n.whole ++ (n.fraction.map fun digits => '.' :: digits).getD []

def width (n : Numeral) : Nat := n.text.length

def digits (n : Numeral) : List Char := n.whole ++ n.fraction.getD []

/-- The nearest double, if there is a digit at all. -/
def value? (n : Numeral) : Option Float :=
  if n.digits.isEmpty then none
  else
    some (Number.Decimal.toFloat
      { digits := Number.Decimal.ofDigits n.digits, exponent := -(n.fraction.getD []).length })

/-- A scanned numeral is what the text begins with. -/
theorem scan_text_isPrefix (cs : List Char) : (scan cs).text <+: cs := by
  have h := List.takeWhile_append_dropWhile (p := Char.isDigit) (l := cs)
  simp only [scan, text]
  split
  · rename_i rest hd
    rw [hd] at h
    refine ⟨rest.dropWhile Char.isDigit, ?_⟩
    simp only [Option.map_some, Option.getD_some, List.append_assoc, List.cons_append,
      List.takeWhile_append_dropWhile]
    exact h
  · exact ⟨cs.dropWhile Char.isDigit, by simp⟩

/-- A numeral at a digit has a value. -/
theorem value?_isSome_scan {c : Char} (rest : List Char) (h : c.isDigit) :
    (scan (c :: rest)).value?.isSome := by
  simp [value?, digits, scan, h]

end Numeral

end InfixCalculator
