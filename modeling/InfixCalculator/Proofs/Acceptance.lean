import InfixCalculator.Proofs.Grammar.Recognition

/-! What is accepted. Brackets match exactly if the brackets of the text, in order, are a balanced
word; of everything else only the length and the last character count. So a well-formed expression
can only be refused for its length or for ending in the variable or in a point. -/

namespace InfixCalculator

namespace Brackets

/-- A balanced word leads back to the depth that it begins at. -/
theorem Balanced.depth?_append {w : List Char} (h : Balanced w) (depth : Nat) (rest : List Char) :
    depth? depth (w ++ rest) = depth? depth rest := by
  induction h generalizing depth rest with
  | nil => rfl
  | @nest inner behind _ _ ihinner ihbehind =>
    have hword : '(' :: (inner ++ ')' :: behind) ++ rest =
        '(' :: (inner ++ ')' :: (behind ++ rest)) := by
      simp
    calc depth? depth ('(' :: (inner ++ ')' :: behind) ++ rest)
        = depth? (depth + 1) (inner ++ ')' :: (behind ++ rest)) := by rw [hword]; rfl
      _ = depth? (depth + 1) (')' :: (behind ++ rest)) := ihinner (depth + 1) _
      _ = depth? depth (behind ++ rest) := rfl
      _ = depth? depth rest := ihbehind depth rest

/-- The words that close so many brackets more than they open: a balanced word in front of each
bracket that they close, and one at the end. -/
inductive Closing : Nat → List Char → Prop
  | last {w : List Char} : Balanced w → Closing 0 w
  | close {depth : Nat} {inner rest : List Char} :
    Balanced inner → Closing depth rest → Closing (depth + 1) (inner ++ ')' :: rest)

theorem Closing.append {depth : Nat} {front w : List Char} (hf : Balanced front)
    (h : Closing depth w) : Closing depth (front ++ w) := by
  cases h with
  | last hw => exact .last (hf.append hw)
  | close hinner hrest =>
    rw [← List.append_assoc]
    exact .close (hf.append hinner) hrest

/-- An opening bracket takes the first bracket that is closed behind it as its partner. -/
theorem Closing.openBracket {depth : Nat} {w : List Char} (h : Closing (depth + 1) w) :
    Closing depth ('(' :: w) := by
  cases h with
  | @close _ inner rest hinner hrest =>
    have hword : '(' :: (inner ++ ')' :: rest) = '(' :: (inner ++ [')']) ++ rest := by simp
    rw [hword]
    exact hrest.append hinner.enclose

/-- A text that closes all that is open before it closes one bracket after the other. -/
theorem closing_of_depth? {depth : Nat} {text : List Char} (h : depth? depth text = some 0) :
    Closing depth (only text) := by
  induction text generalizing depth with
  | nil =>
    cases h
    exact .last .nil
  | cons c rest ih =>
    by_cases ho : c = '('
    · subst ho
      exact Closing.openBracket (ih h)
    · by_cases hc : c = ')'
      · subst hc
        cases depth with
        | zero => cases h
        | succ depth => exact Closing.close .nil (ih h)
      · have hrest : depth? depth rest = some 0 := by simpa [depth?, ho, hc] using h
        have hword : only (c :: rest) = only rest := by simp [only, isBracket, ho, hc]
        rw [hword]
        exact ih hrest

theorem depth?_eq_zero_iff {text : List Char} :
    depth? 0 text = some 0 ↔ Balanced (only text) := by
  constructor
  · intro h
    cases closing_of_depth? h with
    | last hbal => exact hbal
  · intro h
    have hword := h.depth?_append 0 []
    rwa [List.append_nil, depth?_only] at hword

end Brackets

/-! ## The last character -/

namespace Grammar

variable {level : Nat} {text : List Char} {t : Tree}

/-- What a well-formed text ends in: a digit or the point of a numeral, a bracket, the variable. -/
def Ends (c : Char) : Prop := c.isDigit ∨ c = ')' ∨ c = 'x' ∨ c = '.'

theorem exists_getLast?_text {n : Numeral} (hn : n.IsLiteral) :
    ∃ c, n.text.getLast? = some c ∧ Ends c := by
  obtain ⟨c, front, hrev, hc⟩ := Numeral.exists_reverse_text_eq hn
  refine ⟨c, by rw [← List.head?_reverse, hrev]; rfl, ?_⟩
  exact hc.imp_right fun hp => .inr (.inr hp)

theorem Spells.exists_getLast? (h : Spells level text t) :
    ∃ c, text.getLast? = some c ∧ Ends c := by
  -- what stands in front of the last part of a text does not count
  have behind {rest : List Char} (front : List Char) (hrest : ∃ c, rest.getLast? = some c ∧ Ends c) :
      ∃ c, (front ++ rest).getLast? = some c ∧ Ends c := by
    obtain ⟨c, hlast, hc⟩ := hrest
    exact ⟨c, by rw [List.getLast?_append, hlast]; rfl, hc⟩
  induction h with
  | numeral hn => exact exists_getLast?_text hn
  | variableMark => exact ⟨'x', rfl, by simp [Ends]⟩
  | @bracketed text _ _ _ => exact behind ('(' :: text) ⟨')', rfl, by simp [Ends]⟩
  | @scaled text _ _ negative _ hn _ =>
    have hpower := behind ['E', signOf negative] (exists_getLast?_text hn)
    exact behind text hpower
  | unary op _ ih => exact behind op.symbol.toList ih
  | @binary left _ _ _ op _ _ _ ih => exact behind (left ++ op.symbol.toList) ih
  | tighter _ ih => exact ih

end Grammar

namespace Acceptance
open Brackets (Balanced only)

theorem bracketsMatch_iff {e : String} : bracketsMatch e ↔ Balanced (only e.toList) :=
  Brackets.closes_iff.trans Brackets.depth?_eq_zero_iff

theorem accepts_iff {maxLength : Int} {e : String} :
    accepts maxLength e ↔ e ≠ "" ∧ (e.length : Int) ≤ maxLength ∧ Balanced (only e.toList) ∧
      ∃ c, e.toList.getLast? = some c ∧ (c.isDigit ∨ c = ')') := by
  rw [← bracketsMatch_iff]
  simp [accepts, endsOperand, Option.any_eq_true, and_assoc]

/-- A well-formed expression that is not too long is refused for its last character only. -/
theorem accepts_iff_of_isWellFormed {maxLength : Int} {e : String} (h : IsWellFormed e.toList)
    (hlength : (e.length : Int) ≤ maxLength) :
    accepts maxLength e ↔ e.toList.getLast? ≠ some 'x' ∧ e.toList.getLast? ≠ some '.' := by
  obtain ⟨t, ht⟩ := h
  obtain ⟨c, hlast, hc⟩ := ht.exists_getLast?
  have hne : e ≠ "" := by
    intro he
    rw [he] at hlast
    cases hlast
  have hbal : Balanced (only e.toList) := Brackets.depth?_eq_zero_iff.mp (ht.depth 0)
  have hends : c.isDigit ∨ c = ')' ↔ c ≠ 'x' ∧ c ≠ '.' := by
    rcases hc with hd | rfl | rfl | rfl
    · constructor
      · intro _
        constructor <;> rintro rfl <;> cases hd
      · intro _
        exact .inl hd
    · decide
    · decide
    · decide
  rw [accepts_iff, hlast]
  simpa [hne, hlength, hbal] using hends

/-- Brackets match exactly if they are a balanced word. An expression is accepted exactly if they
do, it has a character, no more than `maxLength` of them, and the last one is a digit or a closing
bracket. So a well-formed one that is not too long is accepted unless it ends in the variable or in
a point. -/
theorem accepts_iff_balanced (e : String) :
    (bracketsMatch e ↔ Balanced (only e.toList)) ∧
    ∀ maxLength : Int,
      (accepts maxLength e ↔ e ≠ "" ∧ (e.length : Int) ≤ maxLength ∧ Balanced (only e.toList) ∧
        ∃ c, e.toList.getLast? = some c ∧ (c.isDigit ∨ c = ')')) ∧
      (IsWellFormed e.toList → (e.length : Int) ≤ maxLength →
        (accepts maxLength e ↔
          e.toList.getLast? ≠ some 'x' ∧ e.toList.getLast? ≠ some '.')) := by
  refine ⟨bracketsMatch_iff, fun maxLength => ⟨accepts_iff, fun hwell hlength => ?_⟩⟩
  exact accepts_iff_of_isWellFormed hwell hlength

/-- A numeral that ends in a point is accepted in brackets only. -/
theorem accepts_point_in_brackets :
    (IsWellFormed "(1.)".toList ∧ accepts 255 "(1.)") ∧
      IsWellFormed "1.".toList ∧ ¬ accepts 255 "1." := by
  have hinside : IsWellFormed "(1.)".toList := by decide
  have halone : IsWellFormed "1.".toList := by decide
  refine ⟨⟨hinside, ?_⟩, halone, ?_⟩
  · exact (((accepts_iff_balanced "(1.)").2 255).2 hinside (by decide)).mpr (by decide)
  · rw [((accepts_iff_balanced "1.").2 255).2 halone (by decide)]
    decide

end Acceptance

end InfixCalculator
