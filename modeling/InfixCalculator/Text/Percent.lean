/-! Percent escapes: a percent sign and two hexadecimal digits stand for a byte, and bytes in a row
for characters in UTF-8. What is no UTF-8 is shown by replacement characters, one for as many bytes
as begin a character. -/

namespace InfixCalculator.Text.Percent

inductive Piece where
  | byte (b : Nat)
  | char (c : Char)
  deriving DecidableEq, Repr

def hexValue? (c : Char) : Option Nat :=
  if c.isDigit then some (c.toNat - '0'.toNat)
  else if 'a' ≤ c ∧ c ≤ 'f' then some (c.toNat - 'a'.toNat + 10)
  else if 'A' ≤ c ∧ c ≤ 'F' then some (c.toNat - 'A'.toNat + 10)
  else none

/-- The text with each escape read as its byte. -/
def pieces : List Char → List Piece
  | '%' :: a :: b :: rest =>
    match hexValue? a, hexValue? b with
    | some high, some low => .byte (16 * high + low) :: pieces rest
    | _, _ => .char '%' :: pieces (a :: b :: rest)
  | c :: rest => .char c :: pieces rest
  | [] => []

/-- A character of which bytes are still to come. -/
structure Pending where
  /-- How many bytes are missing. -/
  missing : Nat
  /-- The bits read so far. -/
  bits : Nat
  /-- What the next byte may be. -/
  low : Nat := 0x80
  high : Nat := 0xBF

/-- The character that a first byte begins, or none. -/
def begin? (b : Nat) : Option Pending :=
  if 0xC2 ≤ b ∧ b ≤ 0xDF then some { missing := 1, bits := b - 0xC0 }
  else if b = 0xE0 then some { missing := 2, bits := 0, low := 0xA0 }
  else if b = 0xED then some { missing := 2, bits := 0xD, high := 0x9F }
  else if 0xE1 ≤ b ∧ b ≤ 0xEF then some { missing := 2, bits := b - 0xE0 }
  else if b = 0xF0 then some { missing := 3, bits := 0, low := 0x90 }
  else if b = 0xF4 then some { missing := 3, bits := 4, high := 0x8F }
  else if 0xF1 ≤ b ∧ b ≤ 0xF3 then some { missing := 3, bits := b - 0xF0 }
  else none

def replacement : Char := '\uFFFD'

/-- The characters that a byte completes by itself, and the one that it begins. -/
def start (b : Nat) : List Char × Option Pending :=
  if b < 0x80 then ([Char.ofNat b], none)
  else
    match begin? b with
    | some p => ([], some p)
    | none => ([replacement], none)

/-- The characters that the pieces stand for, the first bytes having begun one. -/
def join : Option Pending → List Piece → List Char
  | none, [] => []
  | some _, [] => [replacement]
  | none, .char c :: rest => c :: join none rest
  | some _, .char c :: rest => replacement :: c :: join none rest
  | none, .byte b :: rest => (start b).1 ++ join (start b).2 rest
  | some p, .byte b :: rest =>
    if p.low ≤ b ∧ b ≤ p.high then
      let bits := 64 * p.bits + (b - 0x80)
      if p.missing = 1 then Char.ofNat bits :: join none rest
      else join (some { missing := p.missing - 1, bits }) rest
    else replacement :: ((start b).1 ++ join (start b).2 rest)

def decode (cs : List Char) : List Char := join none (pieces cs)

end InfixCalculator.Text.Percent
