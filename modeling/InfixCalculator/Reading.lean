import InfixCalculator.Evaluation

/-! The reading of a whole text into its pieces, apart from any calculation. Entering the pieces
in order and then failing where the reading fails is what a calculation does. -/

namespace InfixCalculator

/-- A piece and the place where it was read. -/
structure Piece where
  place : Cursor
  lexeme : Lexeme
  deriving DecidableEq, Repr

/-- Whether the piece stands in the text with all characters of its symbol. -/
def Piece.isSpelledOut (p : Piece) : Bool :=
  match p.lexeme with
  | .token t _ => t.symbol.toList.isPrefixOf p.place.ahead
  | _ => true

/-- The pieces of a text up to its end or to the first fault. -/
structure Reading where
  pieces : List Piece
  fault : Option Failure
  deriving DecidableEq, Repr

namespace Reading

def cons (p : Piece) (r : Reading) : Reading := { r with pieces := p :: r.pieces }

/-- The reading of the text ahead, `skip` characters of which belong to the piece before. -/
def ahead (s : Settings) (skip : Nat) (operandExpected : Bool) (passed : List Char) :
    List Char → Reading
  | [] => { pieces := [], fault := none }
  | c :: rest =>
    match skip with
    | skip + 1 => ahead s skip operandExpected (c :: passed) rest
    | 0 =>
      let place : Cursor := { passed, ahead := c :: rest }
      match Lexeme.read s operandExpected place with
      | .error failure => { pieces := [], fault := some failure }
      | .ok lexeme =>
        cons { place, lexeme }
          (ahead s (lexeme.width - 1) (lexeme.expectsOperand operandExpected) (c :: passed) rest)

def ofText (s : Settings) (text : List Char) : Reading := ahead s 0 true [] text

/-- Whether every token stands in the text with all characters of its symbol. -/
def IsSpelledOut (r : Reading) : Prop :=
  ∀ p ∈ r.pieces, ∀ t operandExpected, p.lexeme = .token t operandExpected →
    t.symbol.toList <+: p.place.ahead

theorem isSpelledOut_iff {r : Reading} : r.IsSpelledOut ↔ r.pieces.all Piece.isSpelledOut := by
  rw [IsSpelledOut, List.all_eq_true]
  refine forall₂_congr fun p _ => ?_
  cases h : p.lexeme with
  | token t operandExpected => simp [Piece.isSpelledOut, h]
  | numeral _ | scaling _ _ | variableMark | exponentMark _ => simp [Piece.isSpelledOut, h]

instance (r : Reading) : Decidable r.IsSpelledOut := decidable_of_iff' _ isSpelledOut_iff

def fail (fault : Option Failure) : Calculation Unit :=
  match fault with
  | none => pure ()
  | some failure => throw failure

/-- Enters the pieces and then fails as the reading does. -/
def enter (x? : Option Float) (r : Reading) : Calculation Unit := do
  r.pieces.forM fun p => Calculation.enter x? p.lexeme
  fail r.fault

theorem enter_cons (x? : Option Float) (p : Piece) (r : Reading) :
    (r.cons p).enter x? = (do Calculation.enter x? p.lexeme; r.enter x?) := by
  simp [enter, cons]

/-- A calculation enters what a reading finds. -/
theorem enterAll_eq_enter (s : Settings) (x? : Option Float) (skip : Nat) (operandExpected : Bool)
    (passed text : List Char) :
    Calculation.enterAll s x? skip operandExpected passed text =
      (ahead s skip operandExpected passed text).enter x? := by
  induction text generalizing skip operandExpected passed with
  | nil => simp [Calculation.enterAll, ahead, enter, fail]
  | cons c rest ih =>
    cases skip with
    | succ skip => simpa [Calculation.enterAll, ahead] using ih skip operandExpected (c :: passed)
    | zero =>
      simp only [Calculation.enterAll, ahead]
      cases Lexeme.read s operandExpected { passed, ahead := c :: rest } with
      | error failure => simp [enter, fail]
      | ok lexeme => simp only [enter_cons, ih]

theorem run_eq (s : Settings) (x? : Option Float) (text : List Char) :
    Calculation.run s x? text = (do (ofText s text).enter x?; Calculation.finish) := by
  simp [Calculation.run, enterAll_eq_enter, ofText]

end Reading

end InfixCalculator
