/-! A place in a text, with what has been passed and what lies ahead. -/

namespace InfixCalculator

structure Cursor where
  /-- The characters before the place, the nearest first. -/
  passed : List Char
  ahead : List Char
  deriving DecidableEq, Repr

namespace Cursor

/-- The place before the character with the given index, or the end of a shorter text. -/
def ofIndex (text : List Char) (index : Nat) : Cursor :=
  { passed := (text.take index).reverse, ahead := text.drop index }

def index (c : Cursor) : Nat := c.passed.length

/-- The place so many characters further on, or the end. -/
def advance (c : Cursor) (n : Nat) : Cursor :=
  { passed := (c.ahead.take n).reverse ++ c.passed, ahead := c.ahead.drop n }

theorem advance_text (c : Cursor) (n : Nat) :
    (c.advance n).passed.reverse ++ (c.advance n).ahead = c.passed.reverse ++ c.ahead := by
  simp [advance]

end Cursor

end InfixCalculator
