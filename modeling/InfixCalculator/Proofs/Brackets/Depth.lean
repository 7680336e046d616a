import InfixCalculator.Brackets
import InfixCalculator.Proofs.Grammar.Reading

/-! The depth of brackets along a text. Only the brackets of a text count for it, and a piece that
is read with all its characters has no bracket in it unless it is one. -/

namespace InfixCalculator

namespace Brackets

/-- The acceptance of brackets is that none is open at the end. -/
theorem closes_iff {depth : Nat} {text : List Char} :
    Acceptance.closes depth text ↔ depth? depth text = some 0 := by
  fun_induction Acceptance.closes depth text with
  | case1 depth => simp [depth?]
  | case2 depth rest ih => simpa [depth?] using ih
  | case3 rest => simp [depth?]
  | case4 depth rest ih => simpa [depth?] using ih
  | case5 depth c rest ho hzero hsucc ih =>
    have hc : c ≠ ')' := by
      rintro rfl
      cases depth with
      | zero => exact hzero rfl rfl
      | succ depth => exact hsucc depth rfl rfl
    simpa [depth?, show c ≠ '(' from ho, hc] using ih

theorem depth?_append (depth : Nat) (a b : List Char) :
    depth? depth (a ++ b) = (depth? depth a).bind (depth? · b) := by
  induction a generalizing depth with
  | nil => rfl
  | cons c rest ih =>
    simp only [List.cons_append, depth?]
    split
    · exact ih _
    · split
      · cases depth with
        | zero => rfl
        | succ depth => exact ih _
      · exact ih _

/-- The depth of a text is reached by way of the depth at any place in it. -/
theorem exists_depth {k : Nat} {a b : List Char} (h : depth? 0 (a ++ b) = some k) :
    ∃ depth, depth? 0 a = some depth ∧ depth? depth b = some k := by
  rw [depth?_append] at h
  exact Option.bind_eq_some_iff.mp h

/-- The depth is that of the brackets alone. -/
theorem depth?_only (depth : Nat) (text : List Char) :
    depth? depth (only text) = depth? depth text := by
  induction text generalizing depth with
  | nil => rfl
  | cons c rest ih =>
    by_cases ho : c = '('
    · simpa [only, isBracket, depth?, ho] using ih (depth + 1)
    · by_cases hc : c = ')'
      · cases depth with
        | zero => simp [only, isBracket, depth?, hc]
        | succ depth => simpa [only, isBracket, depth?, hc] using ih depth
      · simpa [only, isBracket, depth?, ho, hc] using ih depth

theorem only_append (a b : List Char) : only (a ++ b) = only a ++ only b :=
  List.filter_append ..

theorem Balanced.append {a b : List Char} (ha : Balanced a) (hb : Balanced b) :
    Balanced (a ++ b) := by
  induction ha with
  | nil => exact hb
  | nest hinner _ _ ih =>
    rw [List.cons_append, List.append_assoc, List.cons_append]
    exact .nest hinner ih

theorem Balanced.enclose {inner : List Char} (h : Balanced inner) :
    Balanced ('(' :: (inner ++ [')'])) :=
  .nest h .nil

end Brackets

open Brackets (only)

/-- The bracket that the piece is, if it is one. -/
def Lexeme.bracket? : Lexeme → Option Char
  | token .openBracket _ => some '('
  | token .closeBracket _ => some ')'
  | _ => none

theorem Token.only_letters (t : Token) (operandExpected : Bool) :
    only t.letters = (Lexeme.token t operandExpected).bracket?.toList := by
  cases t with
  | binary op => cases op <;> rfl
  | unary op => cases op <;> rfl
  | openBracket | closeBracket => rfl

namespace Numeral

theorem isDigit_of_mem_scan {cs : List Char} {c : Char} (h : c ∈ (scan cs).digits) : c.isDigit := by
  have digits : ∀ ds : List Char, c ∈ ds.takeWhile Char.isDigit → c.isDigit := fun ds hc =>
    List.all_eq_true.mp List.all_takeWhile c hc
  simp only [Numeral.digits, scan, List.mem_append] at h
  rcases h with h | h
  · exact digits _ h
  · split at h
    · exact digits _ h
    · cases h

/-- A numeral has no brackets in it. -/
theorem only_text {n : Numeral} (h : ∀ c ∈ n.digits, c.isDigit) : only n.text = [] := by
  rw [only, List.filter_eq_nil_iff]
  intro c hc
  have hor : c.isDigit ∨ c = '.' := (mem_digits_or_eq_of_mem_text hc).imp (h c) id
  have ho : c ≠ '(' := by rintro rfl; exact absurd hor (by decide)
  have hc : c ≠ ')' := by rintro rfl; exact absurd hor (by decide)
  simp [Brackets.isBracket, ho, hc]

end Numeral

namespace Lexeme

variable {s : Settings} {operandExpected : Bool} {place : Cursor} {l : Lexeme}

/-- The brackets among the characters of a piece. -/
theorem only_take_width (hs : s.HasDefaultMarkers)
    (hr : read s operandExpected place = .ok l)
    (hl : ∀ t operandExpected, l = .token t operandExpected → t.symbol.toList <+: place.ahead) :
    only (place.ahead.take l.width) = l.bracket?.toList := by
  cases found_of_read hr with
  | numeral ha hd _ | scaling ha hd _ =>
    have htext := List.prefix_iff_eq_take.mp (Numeral.scan_text_isPrefix place.ahead)
    rw [width, Numeral.width, ← htext, Numeral.only_text fun _ => Numeral.isDigit_of_mem_scan]
    rfl
  | variableMark ha hx =>
    rw [ha, hs.isVariable_iff.mp hx]
    rfl
  | @exponentMark _ rest ha hE =>
    rw [ha, hs.isExponent_iff.mp hE]
    cases rest with
    | nil => rfl
    | cons sign tail =>
      by_cases hsign : isSign sign
      · have hor : sign = '+' ∨ sign = '-' := by simpa [isSign] using hsign
        rcases hor with rfl | rfl <;> rfl
      · simp [hsign, width, bracket?, only, Brackets.isBracket]
  | @token _ _ t ha ht =>
    have hprefix := List.prefix_iff_eq_take.mp (hl t operandExpected rfl)
    rw [String.length_toList] at hprefix
    rw [width, Token.width, ← hprefix, Token.symbol_toList]
    exact t.only_letters operandExpected

end Lexeme

end InfixCalculator
