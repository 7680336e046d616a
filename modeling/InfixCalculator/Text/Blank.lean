/-! Blank characters around numbers and names. -/

namespace InfixCalculator.Text.Blank

/-- The space and the ASCII controls that move the position. -/
def isAscii (c : Char) : Bool := c = ' ' || (0x09 ≤ c.toNat && c.toNat ≤ 0x0D)

/-- The blanks outside ASCII: separators of words, lines and paragraphs. -/
def isWide (c : Char) : Bool :=
  [0x85, 0xA0, 0x1680, 0x2028, 0x2029, 0x202F, 0x205F, 0x3000].contains c.toNat ||
    (0x2000 ≤ c.toNat && c.toNat ≤ 0x200A)

/-- All blanks, the four ASCII separators of data among them. -/
def isBlank (c : Char) : Bool := isAscii c || (0x1C ≤ c.toNat && c.toNat ≤ 0x1F) || isWide c

/-- The text without the characters at its ends that count as blanks. -/
def trim (blank : Char → Bool) (cs : List Char) : List Char :=
  ((cs.dropWhile blank).reverse.dropWhile blank).reverse

end InfixCalculator.Text.Blank
