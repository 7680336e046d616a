import InfixCalculator.Proofs.Row
import InfixCalculator.Substitution

/-! Rows in which another text stands for each variable. A piece looks one character ahead and at
most two back, and an operand in brackets shows it there the same as the variable does: nothing
that goes on a numeral, a name or an exponent mark, and nothing that leads up to an exponent. -/

namespace InfixCalculator
open Lexeme (Written Unreadable pendingSign?)
open Reading (ahead Passes Ends)

/-! ## What a piece sees of the text around it -/

/-- A text that does not go on the piece in front of it. -/
def Detached (text : List Char) : Prop :=
  ∀ c ∈ text.head?, c.isDigit = false ∧ c ≠ '.' ∧ isSign c = false ∧
    ∀ first, Token.named? first (some c) = none

theorem detached_nil : Detached [] := fun _ h => nomatch h

theorem detached_cons {c : Char} {rest : List Char} (hd : c.isDigit = false) (hp : c ≠ '.')
    (hs : isSign c = false) (hn : ∀ first, Token.named? first (some c) = none) :
    Detached (c :: rest) := by
  rintro _ ⟨⟩
  exact ⟨hd, hp, hs, hn⟩

theorem named?_of_detached {text : List Char} (h : Detached text) (first : Char) :
    Token.named? first text.head? = none := by
  cases text with
  | nil => simp [Token.named?]
  | cons c rest => exact (h c rfl).2.2.2 first

/-- Texts that are the same to the piece in front of them. -/
def AlikeAhead (rest rest' : List Char) : Prop :=
  rest'.head? = rest.head? ∨ Detached rest ∧ Detached rest'

/-- Texts that are the same to the piece behind them. -/
structure AlikePassed (s : Settings) (passed passed' : List Char) : Prop where
  pendingSign : pendingSign? s passed' = pendingSign? s passed
  head : passed'.head?.any s.isExponent = passed.head?.any s.isExponent

theorem pendingSign?_cons (s : Settings) (c : Char) (passed : List Char) :
    pendingSign? s (c :: passed) =
      if isSign c && passed.head?.any s.isExponent then some (c == '-') else none := by
  cases passed with
  | nil => simp [pendingSign?]
  | cons mark rest => rfl

namespace AlikePassed

variable {s : Settings} {passed passed' : List Char}

theorem cons (h : AlikePassed s passed passed') (c : Char) :
    AlikePassed s (c :: passed) (c :: passed') where
  pendingSign := by rw [pendingSign?_cons, pendingSign?_cons, h.head]
  head := rfl

theorem append (h : AlikePassed s passed passed') (front : List Char) :
    AlikePassed s (front ++ passed) (front ++ passed') := by
  induction front with
  | nil => exact h
  | cons c rest ih => exact ih.cons c

end AlikePassed

variable {s : Settings} {before after : Bool} {passed passed' text rest rest' : List Char}

theorem Lexeme.Written.congr {chunk : List Char} {l : Lexeme}
    (h : Written s before passed chunk rest l) (hp : AlikePassed s passed passed')
    (hr : AlikeAhead rest rest') : Written s before passed' chunk rest' l := by
  have hends {n : Numeral} (he : n.EndsBefore rest) : n.EndsBefore rest' := by
    rcases hr with hr | ⟨-, hr⟩
    · rwa [Numeral.EndsBefore, hr]
    · exact fun c hc => ⟨(hr c hc).1, fun _ => (hr c hc).2.1⟩
  cases h with
  | numeral hn he hpending => exact .numeral hn (hends he) (hp.pendingSign.trans hpending)
  | scaling hn he hpending => exact .scaling hn (hends he) (hp.pendingSign.trans hpending)
  | variableMark hd hx => exact .variableMark hd hx
  | @exponentMark _ sign _ hd hx hE hsign =>
    refine .exponentMark hd hx hE ?_
    cases sign with
    | some sign => exact hsign
    | none =>
      rcases hr with hr | ⟨-, hr⟩
      · rwa [Option.toList_none, List.nil_append, hr]
      · cases rest' with
        | nil => rfl
        | cons c tail => simp [(hr c rfl).2.2.1]
  | token hm hsub hneg => exact .token hm hsub hneg

theorem Lexeme.Unreadable.congr {c : Char} (h : Unreadable s after c rest.head?)
    (hr : AlikeAhead rest rest') : Unreadable s after c rest'.head? := by
  rcases hr with hr | ⟨hrest, hrest'⟩
  · rwa [hr]
  · refine { h with startingWith? := ?_ }
    have ht := h.startingWith?
    rw [Token.startingWith?, named?_of_detached hrest] at ht
    rwa [Token.startingWith?, named?_of_detached hrest']

/-! ## Operands in the place of the variable -/

/-- A text that is read as an operand wherever it stands, and looks like one from both sides. -/
structure IsOperand (s : Settings) (operand : List Char) (pieces : Bool → List Lexeme) :
    Prop where
  ne_nil : operand ≠ []
  row (before : Bool) (passed rest : List Char) : Row s rest before false passed operand
    (pieces before)
  detached : Detached operand
  alikePassed (passed passed' : List Char) :
    AlikePassed s ('x' :: passed) (operand.reverse ++ passed')

/-- The pieces with others in the place of each variable. -/
def Lexeme.expand (pieces : Bool → List Lexeme) : Bool → List Lexeme → List Lexeme
  | _, [] => []
  | before, l :: rest =>
    (if l = .variableMark then pieces before else [l]) ++
      expand pieces (l.expectsOperand before) rest

/-- The variable stands for itself. -/
theorem isOperand_variableMark (hs : s.HasDefaultMarkers) :
    IsOperand s ['x'] fun _ => [.variableMark] where
  ne_nil := nofun
  row _ _ _ := .cons (.variableMark rfl (hs.isVariable_iff.mpr rfl)) .nil
  detached := detached_cons rfl (by decide) rfl fun _ => by simp [Token.named?]
  alikePassed _ _ := ⟨by simp [pendingSign?_cons, isSign], rfl⟩

theorem substitute_variableMark (text : List Char) : substitute ['x'] text = text := by
  induction text with
  | nil => rfl
  | cons c rest ih =>
    have hc : (if c = 'x' then ['x'] else [c]) = [c] := by split <;> simp_all
    rw [substitute, List.flatMap_cons, hc]
    exact congrArg (c :: ·) ih

theorem Lexeme.expand_variableMark (before : Bool) (ls : List Lexeme) :
    expand (fun _ => [.variableMark]) before ls = ls := by
  induction ls generalizing before with
  | nil => rfl
  | cons l rest ih =>
    have hl : (if l = .variableMark then [.variableMark] else [l]) = [l] := by split <;> simp_all
    rw [expand, hl, ih]
    rfl

section
variable {operand : List Char} {pieces : Bool → List Lexeme}

theorem substitute_append (a b : List Char) :
    substitute operand (a ++ b) = substitute operand a ++ substitute operand b :=
  List.flatMap_append ..

theorem substitute_cons_of_ne {c : Char} (h : c ≠ 'x') (rest : List Char) :
    substitute operand (c :: rest) = c :: substitute operand rest := by
  rw [substitute, List.flatMap_cons, if_neg h]
  rfl

theorem substitute_of_not_mem (h : 'x' ∉ text) : substitute operand text = text := by
  induction text with
  | nil => rfl
  | cons c rest ih =>
    rw [List.mem_cons, not_or] at h
    rw [substitute_cons_of_ne (Ne.symm h.1), ih h.2]

/-- What is put in the place of variables looks like them from the front. -/
theorem alikeAhead_substitute (ho : IsOperand s operand pieces) (hr : AlikeAhead rest rest') :
    AlikeAhead (text ++ rest) (substitute operand text ++ rest') := by
  cases text with
  | nil => exact hr
  | cons c tail =>
    by_cases hc : c = 'x'
    · subst hc
      refine .inr ⟨detached_cons rfl (by decide) rfl fun _ => by simp [Token.named?], ?_⟩
      obtain ⟨first, more, hfirst⟩ := List.exists_cons_of_ne_nil ho.ne_nil
      have hdetached := ho.detached
      rw [substitute, List.flatMap_cons, if_pos rfl, hfirst]
      rw [hfirst] at hdetached
      exact hdetached
    · rw [substitute_cons_of_ne hc]
      exact .inl rfl

theorem alikeAhead_substitute_append {tail : List Char} (ho : IsOperand s operand pieces)
    (ht : Detached tail) (text : List Char) :
    AlikeAhead text (substitute operand text ++ tail) := by
  have h := @alikeAhead_substitute s text [] tail operand pieces ho (.inr ⟨detached_nil, ht⟩)
  rwa [List.append_nil] at h

/-- Only the variable is written with its character. -/
theorem Lexeme.Written.not_mem {chunk : List Char} {l : Lexeme} (hs : s.HasDefaultMarkers)
    (h : Written s before passed chunk rest l) (hl : l ≠ .variableMark) : 'x' ∉ chunk := by
  have hx : s.isVariable 'x' := hs.isVariable_iff.mpr rfl
  cases h with
  | numeral hn _ _ | scaling hn _ _ =>
    intro hm
    rcases Numeral.mem_digits_or_eq_of_mem_text hm with hd | hp
    · exact absurd (hn.isDigit _ hd) (by decide)
    · exact absurd hp (by decide)
  | variableMark _ _ => exact absurd rfl hl
  | @exponentMark c sign _ _ hc _ hsign =>
    intro hm
    rcases List.mem_cons.mp hm with rfl | hm
    · rw [hx] at hc
      cases hc
    · cases Option.mem_toList.mp hm
      cases hsign
  | token hm _ _ =>
    intro hmem
    have hc := (hm _ hmem).1
    rw [hx] at hc
    cases hc

/-- A row remains a row when a text is put in the place of each variable. -/
theorem Row.substitute {ls : List Lexeme} (hs : s.HasDefaultMarkers)
    (ho : IsOperand s operand pieces) (h : Row s rest before after passed text ls)
    (hp : AlikePassed s passed passed') (hr : AlikeAhead rest rest') :
    Row s rest' before after passed' (substitute operand text)
      (Lexeme.expand pieces before ls) := by
  induction h generalizing passed' with
  | nil => exact .nil
  | @cons before after passed chunk text l ls hl _ ih =>
    rw [substitute_append, Lexeme.expand]
    by_cases hmark : l = .variableMark
    · subst hmark
      cases hl with
      | @variableMark c _ _ hc =>
        cases hs.isVariable_iff.mp hc
        have hrest := ih (ho.alikePassed passed passed')
        rw [if_pos rfl]
        simpa [InfixCalculator.substitute] using (ho.row before passed' _).append hrest
    · rw [if_neg hmark, substitute_of_not_mem (hl.not_mem hs hmark)]
      exact .cons (hl.congr hp (alikeAhead_substitute ho hr)) (ih (hp.append _))

/-! ## The whole text -/

namespace Reading

variable {s : Settings} {before : Bool} {passed passed' text tail : List Char}

theorem lexemes_of_passes {after : Bool} {rest : List Char} {ls : List Lexeme}
    (h : Passes s ls before passed text after passed' rest) :
    (ahead s 0 before passed text).lexemes = ls ++ (ahead s 0 after passed' rest).lexemes ∧
      (ahead s 0 before passed text).fault = (ahead s 0 after passed' rest).fault := by
  obtain ⟨ps, rfl, -, hpieces, hfault⟩ := h
  exact ⟨by rw [lexemes, hpieces, List.map_append]; rfl, hfault⟩

section
variable (hs : s.HasDefaultMarkers) (ho : IsOperand s operand pieces)
  (h : (ahead s 0 before passed text).IsSpelledOut) (hp : AlikePassed s passed passed')
  (ht : Detached tail)
include hs ho h hp ht

/-- A text that is read to its end is read with other texts for its variables, and so is what
stands behind it. -/
theorem passes_substitute (hf : (ahead s 0 before passed text).fault = none) :
    ∃ after, Passes s (Lexeme.expand pieces before (ahead s 0 before passed text).lexemes) before
      passed' (substitute operand text ++ tail) after ((substitute operand text).reverse ++ passed')
      tail := by
  obtain ⟨front, rest, after, htext, hrow, hends⟩ := exists_row hs h
  rw [hf] at hends
  cases hends
  rw [List.append_nil] at htext
  subst htext
  exact ⟨after, (hrow.substitute hs ho hp (.inr ⟨detached_nil, ht⟩)).passes⟩

/-- A text that is read up to a character that starts no piece is read up to the same with other
texts for its variables. -/
theorem ahead_substitute_of_fault {failure : Failure}
    (hf : (ahead s 0 before passed text).fault = some failure) :
    ∃ c i, i ≤ text.length ∧ failure = .unknownSymbol c (passed.length + i) ∧
      (ahead s 0 before passed' (substitute operand text ++ tail)).lexemes =
        Lexeme.expand pieces before (ahead s 0 before passed text).lexemes ∧
      (ahead s 0 before passed' (substitute operand text ++ tail)).fault =
        some (.unknownSymbol c (passed'.length + (substitute operand (text.take i)).length)) := by
  obtain ⟨front, rest, after, htext, hrow, hends⟩ := exists_row hs h
  rw [hf] at hends
  cases hends with
  | @stuck c more hc =>
    have hx : c ≠ 'x' := by
      rintro rfl
      exact absurd hc.isVariable (by simp [hs.isVariable_iff])
    have hrow' := hrow.substitute hs ho hp (alikeAhead_substitute_append ho ht (c :: more))
    have hstuck : ahead s 0 after ((substitute operand front).reverse ++ passed')
        (substitute operand (c :: more) ++ tail) =
          ⟨[], some (.unknownSymbol c (passed'.length + (substitute operand front).length))⟩ := by
      have hc' := hc.congr (alikeAhead_substitute_append ho ht more)
      rw [substitute_cons_of_ne hx, List.cons_append,
        ahead_of_error (Lexeme.read_eq_error_iff.mpr ⟨hc', rfl⟩), List.length_append,
        List.length_reverse, Nat.add_comm]
    obtain ⟨hlexemes, hfault⟩ := lexemes_of_passes hrow'.passes
    rw [← List.append_assoc, ← substitute_append, ← htext, hstuck] at hlexemes hfault
    refine ⟨c, front.length, by simp [htext], ?_, ?_, ?_⟩
    · rw [List.length_append, List.length_reverse, Nat.add_comm]
    · rw [hlexemes]
      exact List.append_nil _
    · rw [hfault, htext, List.take_left]

end

end Reading

end

end InfixCalculator
