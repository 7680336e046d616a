import InfixCalculator.Proofs.Lexeme

/-! Rows of pieces that are written one behind another. A text whose pieces have all their
characters is such a row, up to its end or to the character that starts no piece. -/

namespace InfixCalculator
open Lexeme (Written Unreadable)
open Reading (ahead Passes)

/-- How a row of pieces is written, behind the text passed and in front of the text `rest`. -/
inductive Row (s : Settings) (rest : List Char) :
    Bool → Bool → List Char → List Char → List Lexeme → Prop
  | nil {operandExpected : Bool} {passed : List Char} :
    Row s rest operandExpected operandExpected passed [] []
  | cons {before after : Bool} {passed chunk text : List Char} {l : Lexeme} {ls : List Lexeme} :
    Written s before passed chunk (text ++ rest) l →
    Row s rest (l.expectsOperand before) after (chunk.reverse ++ passed) text ls →
    Row s rest before after passed (chunk ++ text) (l :: ls)

namespace Row

variable {s : Settings} {before after : Bool} {passed text rest : List Char} {ls : List Lexeme}

theorem append {text' : List Char} {ls' : List Lexeme} {between : Bool}
    (h : Row s (text' ++ rest) before between passed text ls)
    (h' : Row s rest between after (text.reverse ++ passed) text' ls') :
    Row s rest before after passed (text ++ text') (ls ++ ls') := by
  induction h with
  | nil => exact h'
  | cons hl _ ih =>
    rw [List.reverse_append, List.append_assoc] at h'
    rw [List.append_assoc]
    rw [← List.append_assoc] at hl
    exact .cons hl (ih h')

theorem passes (h : Row s rest before after passed text ls) :
    Passes s ls before passed (text ++ rest) after (text.reverse ++ passed) rest := by
  induction h with
  | nil => exact Reading.passes_nil
  | cons hl _ ih =>
    rw [List.append_assoc, List.reverse_append, List.append_assoc]
    exact (Reading.passes_of_read hl.read hl.width_eq hl.isSpelledOut).trans ih

theorem only_eq (hs : s.HasDefaultMarkers) (h : Row s rest before after passed text ls) :
    Brackets.only text = ls.filterMap Lexeme.bracket? := by
  induction h with
  | nil => rfl
  | @cons _ _ _ chunk _ l _ hl _ ih =>
    have hchunk := hl.only_eq hs
    rw [Brackets.only_append, hchunk, ih]
    cases hb : l.bracket? <;> simp [hb]

end Row

namespace Reading

variable {s : Settings} {operandExpected : Bool} {passed text : List Char}

/-- How far a text is read: to its end, or to a character that starts no piece. -/
inductive Ends (s : Settings) (after : Bool) (passed : List Char) :
    List Char → Option Failure → Prop
  | done : Ends s after passed [] none
  | stuck {c : Char} {rest : List Char} : Unreadable s after c rest.head? →
    Ends s after passed (c :: rest) (some (.unknownSymbol c passed.length))

/-- A text whose pieces have all their characters is a row up to where its reading ends. -/
theorem exists_row (hs : s.HasDefaultMarkers)
    (h : (ahead s 0 operandExpected passed text).IsSpelledOut) :
    ∃ front rest after, text = front ++ rest ∧
      Row s rest operandExpected after passed front
        (ahead s 0 operandExpected passed text).lexemes ∧
      Ends s after (front.reverse ++ passed) rest
        (ahead s 0 operandExpected passed text).fault := by
  generalize hn : text.length = n
  induction n using Nat.strongRecOn generalizing text passed operandExpected with
  | ind n ih =>
    cases text with
    | nil => exact ⟨[], [], operandExpected, rfl, .nil, .done⟩
    | cons c tail =>
      cases hr : Lexeme.read s operandExpected ⟨passed, c :: tail⟩ with
      | error f =>
        obtain ⟨hc, rfl⟩ := Lexeme.read_eq_error_iff.mp hr
        rw [ahead_of_error hr]
        exact ⟨[], c :: tail, operandExpected, rfl, .nil, .stuck hc⟩
      | ok l =>
        have hall := isSpelledOut_iff.mp h
        rw [ahead_of_read hr] at hall
        obtain ⟨hl, hall⟩ := Bool.and_eq_true_iff.mp hall
        obtain ⟨chunk, more, htext, hw⟩ := Lexeme.exists_written hs hr hl
        have hpos := Lexeme.width_pos_of_read hr
        rw [hw.width_eq] at hpos
        rw [htext] at hr hall hn ⊢
        have hmore : (ahead s 0 (l.expectsOperand operandExpected) (chunk.reverse ++ passed)
            more).IsSpelledOut := by
          rw [isSpelledOut_iff]
          simpa [Cursor.advance, hw.width_eq] using hall
        rw [List.length_append] at hn
        obtain ⟨front, rest, after, rfl, hrow, hends⟩ := ih more.length (by omega) hmore rfl
        rw [ahead_append hr hw.width_eq]
        refine ⟨chunk ++ front, rest, after, (List.append_assoc ..).symm, .cons hw hrow, ?_⟩
        rw [List.reverse_append, List.append_assoc]
        exact hends

end Reading

end InfixCalculator
