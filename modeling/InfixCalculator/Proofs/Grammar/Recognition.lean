import InfixCalculator.Proofs.Grammar.Completion
import InfixCalculator.Proofs.Grammar.Conversion
import InfixCalculator.Proofs.Lexeme
import InfixCalculator.Proofs.Placement

/-! Well-formed texts are those that are read to the end, in full symbols, with matching brackets
and every piece in its place. So whether a text is well formed can be decided. -/

namespace InfixCalculator
open Brackets (depth? only)
open Lexeme (Fresh)
open Placement (Fits)

namespace Grammar

variable {s : Settings} {level : Nat} {text : List Char} {t : Tree}

/-! ## What a well-formed text is read as -/

/-- The pieces of a spelled text, what they are converted to and how they stand. -/
theorem Spells.exists_lexemes (h : Spells level text t) (hs : s.HasDefaultMarkers) :
    ∃ ls, Reads s text ls ∧ Converts level ls t ∧ Fits true false ls := by
  induction h with
  | numeral hn => exact ⟨_, reads_numeral hn, converts_numeral _, ⟨rfl, rfl, rfl, rfl⟩⟩
  | variableMark =>
    exact ⟨_, reads_variableMark hs, converts_variableMark, ⟨rfl, rfl, rfl, rfl⟩⟩
  | bracketed _ ih =>
    obtain ⟨ls, hr, hc, hf⟩ := ih
    have hopen : Fits true true [.token .openBracket true] := ⟨rfl, rfl, rfl, rfl⟩
    have hclose : Fits false false [.token .closeBracket false] := ⟨rfl, rfl, rfl, rfl⟩
    exact ⟨_, reads_bracketed hs hr, hc.bracketed, hopen.append (hf.append hclose)⟩
  | @scaled _ _ n negative _ hn ih =>
    obtain ⟨ls, hr, hc, hf⟩ := ih
    have hpower : Fits false false
        [.exponentMark (some (signOf negative)), .scaling negative n] := ⟨rfl, rfl, rfl, rfl⟩
    exact ⟨_, reads_scaled hs negative hr hn, hc.scaled _ negative _, hf.append hpower⟩
  | unary op _ ih =>
    obtain ⟨ls, hr, hc, hf⟩ := ih
    have hop : Fits true true [.token (.unary op) true] := ⟨rfl, rfl, rfl, rfl⟩
    exact ⟨_, reads_unary hs op hr, hc.unary op, hop.append hf⟩
  | binary op _ _ ihl ihr =>
    obtain ⟨ls, hl, hcl, hfl⟩ := ihl
    obtain ⟨rs, hr, hcr, hfr⟩ := ihr
    have hop : Fits false true [.token (.binary op) false] := ⟨rfl, rfl, rfl, rfl⟩
    exact ⟨_, reads_binary hs op hl hr, hcl.binary op hcr, hfl.append (hop.append hfr)⟩
  | tighter _ ih =>
    obtain ⟨ls, hr, hc, hf⟩ := ih
    exact ⟨ls, hr, hc.of_succ, hf⟩

theorem Reads.ofText {ls : List Lexeme} (h : Reads s text ls) :
    (Reading.ofText s text).lexemes = ls ∧ (Reading.ofText s text).fault = none ∧
      (Reading.ofText s text).IsSpelledOut := by
  obtain ⟨-, ps, hps, hsp, hp, hf⟩ := h [] [] Lexeme.fresh_nil Numeral.stops_nil
  rw [List.append_nil] at hp hf
  have hpieces : (Reading.ofText s text).pieces = ps := by
    rw [Reading.ofText, hp, Reading.ahead_nil, List.append_nil]
  refine ⟨?_, hf, ?_⟩
  · rw [Reading.lexemes, hpieces, hps]
  · rw [Reading.isSpelledOut_iff, hpieces, hsp]

theorem depth?_of_only_eq_nil {depth : Nat} (h : only text = []) :
    depth? depth text = some depth := by
  rw [← Brackets.depth?_only, h]; rfl

theorem only_power (negative : Bool) {n : Numeral} (hn : n.IsLiteral) :
    only ('E' :: signOf negative :: n.text) = [] := by
  have hfront : only ['E', signOf negative] = [] := by cases negative <;> rfl
  refine (Brackets.only_append ['E', signOf negative] n.text).trans ?_
  rw [hfront, Numeral.only_text hn.isDigit]
  rfl

theorem depth?_symbol {depth : Nat} {t : Token}
    (h : (Lexeme.token t true).bracket? = none) : depth? depth t.symbol.toList = some depth := by
  refine depth?_of_only_eq_nil ?_
  rw [t.symbol_toList, t.only_letters true, h]
  rfl

/-- A spelled text leaves as many brackets open as it finds. -/
theorem Spells.depth (h : Spells level text t) (depth : Nat) : depth? depth text = some depth := by
  induction h generalizing depth with
  | numeral hn => exact depth?_of_only_eq_nil (Numeral.only_text hn.isDigit)
  | variableMark => rfl
  | @bracketed text _ _ ih =>
    show depth? (depth + 1) (text ++ [')']) = some depth
    rw [Brackets.depth?_append, ih]
    rfl
  | scaled negative _ hn ih =>
    rw [Brackets.depth?_append, ih]
    exact depth?_of_only_eq_nil (only_power negative hn)
  | unary op _ ih =>
    have hop : depth? depth op.symbol.toList = some depth := depth?_symbol (t := .unary op) rfl
    rw [Brackets.depth?_append, hop]
    exact ih depth
  | binary op _ _ ihl ihr =>
    have hop : depth? depth op.symbol.toList = some depth := depth?_symbol (t := .binary op) rfl
    rw [List.append_assoc, Brackets.depth?_append, ihl, Option.bind_some, Brackets.depth?_append,
      hop]
    exact ihr depth
  | tighter _ ih => exact ih depth

end Grammar

/-! ## The characters of a piece -/

namespace Lexeme

variable {s : Settings} {operandExpected : Bool} {passed text chunk : List Char} {l : Lexeme}

/-- What a piece is read from, where no exponent mark leads up to it. -/
inductive ReadFrom (operandExpected : Bool) : List Char → Lexeme → Prop
  | numeral {n : Numeral} : n.IsLiteral → ReadFrom operandExpected n.text (.numeral n)
  | variableMark : ReadFrom operandExpected ['x'] .variableMark
  | exponentMark (sign : Option Char) :
    ReadFrom operandExpected ('E' :: sign.toList) (.exponentMark sign)
  | token (t : Token) : ReadFrom operandExpected t.letters (.token t operandExpected)

theorem exists_readFrom (hs : s.HasDefaultMarkers) (hf : Fresh s passed)
    (hr : read s operandExpected ⟨passed, text⟩ = .ok l)
    (hl : Piece.isSpelledOut ⟨⟨passed, text⟩, l⟩) :
    ∃ chunk rest, text = chunk ++ rest ∧ l.width = chunk.length ∧
      ReadFrom operandExpected chunk l := by
  obtain ⟨chunk, rest, rfl, hw⟩ := exists_written hs hr hl
  refine ⟨chunk, rest, rfl, hw.width_eq, ?_⟩
  cases hw with
  | numeral hn _ _ => exact .numeral hn
  | scaling _ _ hp =>
    rw [hf.pendingSign] at hp
    cases hp
  | variableMark _ hx =>
    rw [hs.isVariable_iff.mp hx]
    exact .variableMark
  | exponentMark _ _ hE _ =>
    rw [hs.isExponent_iff.mp hE]
    exact .exponentMark _
  | token _ _ _ => exact .token _

theorem eq_signOf_of_pendingSign {sign : Option Char} {negative : Bool}
    (h : pendingSign? s (('E' :: sign.toList).reverse ++ passed) = some negative) :
    sign = some (Grammar.signOf negative) := by
  cases sign with
  | none =>
    have hE : isSign 'E' = false := rfl
    cases passed with
    | nil => cases h
    | cons mark rest =>
      have hnone : pendingSign? s ('E' :: mark :: rest) = none := by simp [pendingSign?, hE]
      cases hnone.symm.trans h
  | some c =>
    have hc : (if isSign c && s.isExponent 'E' then some (c == '-') else none) = some negative := h
    split at hc
    · rename_i hsign
      have hor : c = '+' ∨ c = '-' := by simpa [isSign] using (Bool.and_eq_true_iff.mp hsign).1
      cases hc
      rcases hor with rfl | rfl <;> rfl
    · cases hc

/-- An exponent is read behind an exponent mark with its sign only. -/
theorem exists_of_read_scaling {sign : Option Char} {negative : Bool} {n : Numeral}
    (hr : read s operandExpected ⟨('E' :: sign.toList).reverse ++ passed, text⟩ =
      .ok (.scaling negative n)) :
    sign = some (Grammar.signOf negative) ∧ n.IsLiteral ∧ ∃ rest, text = n.text ++ rest := by
  cases found_of_read hr with
  | scaling ha hd hp =>
    obtain ⟨rest, hrest⟩ := Numeral.scan_text_isPrefix text
    cases ha
    exact ⟨eq_signOf_of_pendingSign hp, Numeral.isLiteral_scan _ hd, rest, hrest.symm⟩

/-- Behind a piece that is no exponent mark nothing leads up to an exponent. -/
theorem ReadFrom.fresh (h : ReadFrom operandExpected chunk l) (hs : s.HasDefaultMarkers)
    (hp : passed.head? ≠ some 'E') (hl : ∀ sign, l ≠ .exponentMark sign) :
    Fresh s (chunk.reverse ++ passed) := by
  cases h with
  | numeral hn => exact fresh_text hn
  | variableMark => exact fresh_cons hs (by decide) hp
  | exponentMark sign => exact absurd rfl (hl sign)
  | token t => exact fresh_letters hs t hp

end Lexeme

/-! ## Back to the tree -/

/-- Whether the reading comes to the end, in full symbols and with every piece in its place. -/
structure Reading.IsOrderly (operandExpected : Bool) (r : Reading) : Prop where
  fault : r.fault = none
  isSpelledOut : r.IsSpelledOut
  fits : Fits operandExpected false r.lexemes

theorem Reading.IsOrderly.of_cons {operandExpected : Bool} {p : Piece} {r : Reading}
    (h : (r.cons p).IsOrderly operandExpected) :
    p.isSpelledOut ∧ p.lexeme.beginsOperand = operandExpected ∧
      r.IsOrderly (p.lexeme.expectsOperand operandExpected) := by
  obtain ⟨hbegins, hfits⟩ := h.fits.of_cons
  have hall := Reading.isSpelledOut_iff.mp h.isSpelledOut
  obtain ⟨hp, hr⟩ := Bool.and_eq_true_iff.mp hall
  exact ⟨hp, hbegins, h.fault, Reading.isSpelledOut_iff.mpr hr, hfits⟩

/-- The first piece of a reading was read where the reading began. -/
theorem Reading.read_of_lexemes_eq_cons {s : Settings} {operandExpected : Bool}
    {passed text : List Char} {l : Lexeme} {ls : List Lexeme}
    (h : (ahead s 0 operandExpected passed text).lexemes = l :: ls) :
    Lexeme.read s operandExpected ⟨passed, text⟩ = .ok l := by
  cases text with
  | nil => cases h
  | cons c rest =>
    cases hr : Lexeme.read s operandExpected ⟨passed, c :: rest⟩ with
    | error f => rw [ahead_of_error hr] at h; cases h
    | ok l' =>
      rw [ahead_of_ok hr] at h
      exact congrArg Except.ok (List.cons.inj h).1

namespace Grammar

variable {s : Settings} {depth : Nat} {text chunk rest : List Char} {t : Tree}

/-- Whether the text may go on with an operand or, where none is expected, behind one. -/
def Placed (operandExpected : Bool) (depth : Nat) (text : List Char) : Prop :=
  if operandExpected then Begun depth text else Ended depth text

/-- A piece in its place that is no exponent mark takes the text from place to place. -/
theorem Placed.step {l : Lexeme} {operandExpected : Bool}
    (h : Placed operandExpected depth text) (hr : Lexeme.ReadFrom operandExpected chunk l)
    (hl : ∀ sign, l ≠ .exponentMark sign) (hb : l.beginsOperand = operandExpected)
    (hd : depth? depth (chunk ++ rest) = some 0) :
    ∃ depth', Placed (l.expectsOperand operandExpected) depth' (text ++ chunk) ∧
      depth? depth' rest = some 0 := by
  cases hr with
  | @numeral n hn =>
    cases hb
    rw [Brackets.depth?_append, depth?_of_only_eq_nil (Numeral.only_text hn.isDigit)] at hd
    exact ⟨depth, Begun.operand h (.numeral hn), hd⟩
  | variableMark =>
    cases hb
    exact ⟨depth, Begun.operand h .variableMark, hd⟩
  | exponentMark sign => exact absurd rfl (hl sign)
  | token t =>
    cases t with
    | openBracket =>
      have ho : true = operandExpected := hb
      subst ho
      exact ⟨depth + 1, Begun.openBracket h, hd⟩
    | closeBracket =>
      have ho : false = operandExpected := hb
      subst ho
      cases depth with
      | zero => cases hd
      | succ depth => exact ⟨depth, Ended.closeBracket h, hd⟩
    | unary op =>
      have ho : true = operandExpected := hb
      subst ho
      have hop : op.symbol.toList = (Token.unary op).letters := Token.symbol_toList (.unary op)
      have hsame : depth? depth op.symbol.toList = some depth := depth?_symbol (t := .unary op) rfl
      rw [← hop, Brackets.depth?_append, hsame] at hd
      exact ⟨depth, hop ▸ Begun.unary op h, hd⟩
    | binary op =>
      have ho : false = operandExpected := hb
      subst ho
      have hop : op.symbol.toList = (Token.binary op).letters := Token.symbol_toList (.binary op)
      have hsame : depth? depth op.symbol.toList = some depth := depth?_symbol (t := .binary op) rfl
      rw [← hop, Brackets.depth?_append, hsame] at hd
      exact ⟨depth, hop ▸ Ended.binary op h, hd⟩

/-- An exponent mark with its exponent goes behind an operand. -/
theorem Placed.scaled {n : Numeral} (negative : Bool) (h : Placed false depth text)
    (hn : n.IsLiteral) (hd : depth? depth ('E' :: signOf negative :: (n.text ++ rest)) = some 0) :
    Placed false depth (text ++ 'E' :: signOf negative :: n.text) ∧
      depth? depth rest = some 0 := by
  refine ⟨Ended.scaled negative h hn, ?_⟩
  have hpower : depth? depth ('E' :: signOf negative :: n.text) = some depth :=
    depth?_of_only_eq_nil (only_power negative hn)
  have hd' : depth? depth (('E' :: signOf negative :: n.text) ++ rest) = some 0 := hd
  rwa [Brackets.depth?_append, hpower] at hd'

/-- An orderly reading of a text with matching brackets makes a tree of it. -/
theorem isWellFormed_of_isOrderly {operandExpected : Bool} {passed : List Char}
    (hs : s.HasDefaultMarkers) (hf : Fresh s passed)
    (hplace : Placed operandExpected depth passed.reverse)
    (h : (Reading.ahead s 0 operandExpected passed text).IsOrderly operandExpected)
    (hd : depth? depth text = some 0) : IsWellFormed (passed.reverse ++ text) := by
  generalize hn : text.length = n
  induction n using Nat.strongRecOn generalizing text passed operandExpected depth with
  | ind n ih =>
    cases text with
    | nil =>
      cases h.fits.expects_eq
      cases hd
      rw [List.append_nil]
      exact Ended.complete hplace
    | cons c tail =>
      cases hr : Lexeme.read s operandExpected ⟨passed, c :: tail⟩ with
      | error f =>
        rw [Reading.ahead_of_error hr] at h
        cases h.fault
      | ok l =>
        obtain ⟨hl, hb, -⟩ := (Reading.ahead_of_read hr ▸ h).of_cons
        obtain ⟨chunk, rest, htext, hw, hfrom⟩ := Lexeme.exists_readFrom hs hf hr hl
        have hpos := Lexeme.width_pos_of_read hr
        rw [htext] at hr h hd hn ⊢
        rw [Reading.ahead_append hr hw] at h
        rw [List.length_append, ← hw] at hn
        obtain ⟨-, -, hrest⟩ := h.of_cons
        cases hl : l with
        | exponentMark sign =>
          subst hl
          have ho : false = operandExpected := hb
          subst ho
          -- the exponent is read together with its mark
          obtain ⟨negative, m, more, hnext⟩ :=
            Placement.exists_scaling_of_exponentMark h.fits.not_strayMark
          have hread := Reading.read_of_lexemes_eq_cons hnext
          cases hfrom
          obtain ⟨rfl, hm, rest, rfl⟩ := Lexeme.exists_of_read_scaling hread
          rw [Reading.ahead_append hread rfl] at hrest
          obtain ⟨-, -, hrest⟩ := hrest.of_cons
          obtain ⟨hplace', hd'⟩ := hplace.scaled negative hm hd
          have hfresh : Fresh s (m.text.reverse ++ signOf negative :: 'E' :: passed) :=
            Lexeme.fresh_text hm
          have hreverse : passed.reverse ++ 'E' :: signOf negative :: m.text =
              (m.text.reverse ++ signOf negative :: 'E' :: passed).reverse := by
            simp
          rw [hreverse] at hplace'
          rw [List.length_append] at hn
          have hwhole := ih rest.length (by omega) hfresh hplace' hrest hd' rfl
          simpa using hwhole
        | numeral _ | scaling _ _ | variableMark | token _ _ =>
          have hmark : ∀ sign, l ≠ .exponentMark sign := by
            rintro sign rfl
            cases hl
          obtain ⟨depth', hplace', hd'⟩ := hplace.step hfrom hmark hb hd
          rw [← List.reverse_reverse chunk, ← List.reverse_append] at hplace'
          have hfresh := hfrom.fresh hs hf.head_ne hmark
          have hwhole := ih rest.length (by omega) hfresh hplace' hrest hd' rfl
          simpa using hwhole

end Grammar

/-! ## The decision -/

/-- A text is well formed exactly if its reading is orderly and its brackets match. -/
theorem isWellFormed_iff {s : Settings} {text : List Char} (hs : s.HasDefaultMarkers) :
    IsWellFormed text ↔ (Reading.ofText s text).IsOrderly true ∧ depth? 0 text = some 0 := by
  constructor
  · rintro ⟨t, h⟩
    obtain ⟨ls, hr, -, hfits⟩ := h.exists_lexemes hs
    obtain ⟨hls, hfault, hspelled⟩ := hr.ofText
    exact ⟨⟨hfault, hspelled, hls ▸ hfits⟩, h.depth 0⟩
  · rintro ⟨h, hd⟩
    have hplace : Grammar.Placed true 0 [].reverse := Grammar.begun_nil
    exact Grammar.isWellFormed_of_isOrderly hs Lexeme.fresh_nil hplace h hd

instance {a b : Bool} {ls : List Lexeme} : Decidable (Fits a b ls) :=
  decidable_of_iff
    (Placement.crowded a ls = false ∧ Placement.gapped a ls = false ∧
      Placement.strayMark ls = false ∧ Placement.expects a ls = b)
    ⟨fun ⟨hc, hg, hs, he⟩ => ⟨hc, hg, hs, he⟩, fun ⟨hc, hg, hs, he⟩ => ⟨hc, hg, hs, he⟩⟩

instance {a : Bool} {r : Reading} : Decidable (r.IsOrderly a) :=
  decidable_of_iff (r.fault = none ∧ r.IsSpelledOut ∧ Fits a false r.lexemes)
    ⟨fun ⟨hf, hs, hl⟩ => ⟨hf, hs, hl⟩, fun ⟨hf, hs, hl⟩ => ⟨hf, hs, hl⟩⟩

instance {text : List Char} : Decidable (IsWellFormed text) :=
  decidable_of_iff' _ (isWellFormed_iff (s := {}) ⟨rfl, rfl⟩)

end InfixCalculator
