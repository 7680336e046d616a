import InfixCalculator.Reading

/-! Where the pieces of a text stand. Each was read at its place in the text, the places go
forward, and a reading that stops early does so at a symbol that starts no piece. -/

namespace InfixCalculator

/-- The numeral of the piece, if it has one, has a value. -/
def Lexeme.HasValue : Lexeme → Prop
  | numeral n | scaling _ n => n.value?.isSome
  | variableMark | exponentMark _ | token _ _ => True

namespace Lexeme

/-- What can be found at a place, by the character that stands there. -/
inductive Found (s : Settings) (operandExpected : Bool) (place : Cursor) : Lexeme → Prop
  | numeral {c : Char} {rest : List Char} : place.ahead = c :: rest → c.isDigit →
    pendingSign? s place.passed = none →
    Found s operandExpected place (.numeral (Numeral.scan place.ahead))
  | scaling {c : Char} {rest : List Char} {negative : Bool} : place.ahead = c :: rest →
    c.isDigit → pendingSign? s place.passed = some negative →
    Found s operandExpected place (.scaling negative (Numeral.scan place.ahead))
  | variableMark {c : Char} {rest : List Char} : place.ahead = c :: rest → s.isVariable c →
    Found s operandExpected place .variableMark
  | exponentMark {c : Char} {rest : List Char} : place.ahead = c :: rest → s.isExponent c →
    Found s operandExpected place (.exponentMark (rest.head?.filter isSign))
  | token {c : Char} {rest : List Char} {t : Token} : place.ahead = c :: rest →
    Token.startingWith? operandExpected c rest.head? = some t →
    Found s operandExpected place (.token t operandExpected)

theorem found_of_read {s : Settings} {operandExpected : Bool} {place : Cursor} {l : Lexeme}
    (h : read s operandExpected place = .ok l) : Found s operandExpected place l := by
  unfold read at h
  split at h
  · cases h
  · rename_i c rest ha
    split at h
    · rename_i hd
      cases h
      unfold readNumeral
      split
      · rename_i negative hp
        exact .scaling ha hd hp
      · rename_i hp
        exact .numeral ha hd hp
    · split at h
      · rename_i hx
        cases h
        exact .variableMark ha hx
      · split at h
        · rename_i hE
          cases h
          exact .exponentMark ha hE
        · unfold Token.read at h
          rw [ha] at h
          simp only at h
          split at h
          · rename_i t ht
            cases h
            exact .token ha ht
          · cases h

/-- A numeral is read at a digit, so it has a value. -/
theorem hasValue_of_read {s : Settings} {operandExpected : Bool} {place : Cursor} {l : Lexeme}
    (h : read s operandExpected place = .ok l) : l.HasValue := by
  cases found_of_read h with
  | numeral ha hd _ | scaling ha hd _ =>
    rw [HasValue, ha]
    exact Numeral.value?_isSome_scan _ hd
  | variableMark _ _ | exponentMark _ _ | token _ _ => trivial

/-- A piece has at least the character that it was read at. -/
theorem width_pos_of_read {s : Settings} {operandExpected : Bool} {place : Cursor} {l : Lexeme}
    (h : read s operandExpected place = .ok l) : 0 < l.width := by
  cases found_of_read h with
  | numeral ha hd _ | scaling ha hd _ =>
    rw [width, ha]
    simp [Numeral.width, Numeral.text, Numeral.scan, hd]
  | variableMark _ _ => exact Nat.one_pos
  | exponentMark _ _ =>
    rw [width]
    split <;> decide
  | token _ _ => exact Token.width_pos _

/-- Only a symbol that starts no piece keeps the text ahead from being read. -/
theorem eq_unknownSymbol_of_read {s : Settings} {operandExpected : Bool} {passed rest : List Char}
    {c : Char} {f : Failure}
    (h : read s operandExpected { passed, ahead := c :: rest } = .error f) :
    f = .unknownSymbol c passed.length := by
  simp only [read] at h
  split at h
  · cases h
  · split at h
    · cases h
    · split at h
      · cases h
      · simp only [Token.read] at h
        split at h <;> cases h
        rfl

end Lexeme

namespace Reading

@[simp] theorem ahead_nil (s : Settings) (skip : Nat) (operandExpected : Bool)
    (passed : List Char) : ahead s skip operandExpected passed [] = ⟨[], none⟩ := rfl

@[simp] theorem ahead_succ (s : Settings) (skip : Nat) (operandExpected : Bool)
    (passed : List Char) (c : Char) (rest : List Char) :
    ahead s (skip + 1) operandExpected passed (c :: rest) =
      ahead s skip operandExpected (c :: passed) rest := rfl

theorem ahead_of_ok {s : Settings} {operandExpected : Bool} {passed rest : List Char} {c : Char}
    {l : Lexeme} (h : Lexeme.read s operandExpected ⟨passed, c :: rest⟩ = .ok l) :
    ahead s 0 operandExpected passed (c :: rest) =
      cons ⟨⟨passed, c :: rest⟩, l⟩
        (ahead s (l.width - 1) (l.expectsOperand operandExpected) (c :: passed) rest) := by
  rw [ahead, h]

theorem ahead_of_error {s : Settings} {operandExpected : Bool} {passed rest : List Char}
    {c : Char} {f : Failure} (h : Lexeme.read s operandExpected ⟨passed, c :: rest⟩ = .error f) :
    ahead s 0 operandExpected passed (c :: rest) = ⟨[], some f⟩ := by
  rw [ahead, h]

/-- To skip characters is to have passed them. -/
theorem ahead_skip (s : Settings) (skip : Nat) (operandExpected : Bool)
    (passed text : List Char) :
    ahead s skip operandExpected passed text =
      ahead s 0 operandExpected ((text.take skip).reverse ++ passed) (text.drop skip) := by
  induction text generalizing skip passed with
  | nil => cases skip <;> rfl
  | cons c rest ih =>
    cases skip with
    | zero => rfl
    | succ skip => rw [ahead_succ, ih]; simp

/-- Behind a piece the reading goes on where its characters end. -/
theorem ahead_of_read {s : Settings} {operandExpected : Bool} {place : Cursor} {l : Lexeme}
    (h : Lexeme.read s operandExpected place = .ok l) :
    ahead s 0 operandExpected place.passed place.ahead =
      cons ⟨place, l⟩ (ahead s 0 (l.expectsOperand operandExpected)
        (place.advance l.width).passed (place.advance l.width).ahead) := by
  obtain ⟨passed, ahead⟩ := place
  cases ahead with
  | nil => cases h
  | cons c rest =>
    obtain ⟨n, hn⟩ := Nat.exists_eq_succ_of_ne_zero (Nat.ne_of_gt (Lexeme.width_pos_of_read h))
    rw [ahead_of_ok h, ahead_skip, hn]
    simp [Cursor.advance]

theorem ahead_append {s : Settings} {operandExpected : Bool} {passed symbol rest : List Char}
    {l : Lexeme} (hr : Lexeme.read s operandExpected ⟨passed, symbol ++ rest⟩ = .ok l)
    (hw : l.width = symbol.length) :
    ahead s 0 operandExpected passed (symbol ++ rest) =
      cons ⟨⟨passed, symbol ++ rest⟩, l⟩
        (ahead s 0 (l.expectsOperand operandExpected) (symbol.reverse ++ passed) rest) := by
  rw [ahead_of_read hr, hw]
  simp [Cursor.advance]

/-- Each piece was read at its place. -/
theorem read_of_mem {s : Settings} {skip : Nat} {operandExpected : Bool} {passed text : List Char}
    {p : Piece} (h : p ∈ (ahead s skip operandExpected passed text).pieces) :
    ∃ operandExpected', Lexeme.read s operandExpected' p.place = .ok p.lexeme := by
  induction text generalizing skip operandExpected passed with
  | nil => cases h
  | cons c rest ih =>
    cases skip with
    | succ skip => exact ih h
    | zero =>
      cases hr : Lexeme.read s operandExpected ⟨passed, c :: rest⟩ with
      | error f => rw [ahead_of_error hr] at h; cases h
      | ok l =>
        rw [ahead_of_ok hr] at h
        rcases List.mem_cons.mp h with rfl | h
        · exact ⟨operandExpected, hr⟩
        · exact ih h

theorem hasValue_of_mem {s : Settings} {text : List Char} {p : Piece}
    (h : p ∈ (ofText s text).pieces) : p.lexeme.HasValue := by
  obtain ⟨_, hr⟩ := read_of_mem h
  exact Lexeme.hasValue_of_read hr

/-- A fault is a symbol of the text, and all pieces stand before it. -/
theorem ahead_fault {s : Settings} {skip : Nat} {operandExpected : Bool} {passed text : List Char}
    {f : Failure} (h : (ahead s skip operandExpected passed text).fault = some f) :
    ∃ c i, f = .unknownSymbol c (passed.length + i) ∧ text[i]? = some c ∧
      ∀ p ∈ (ahead s skip operandExpected passed text).pieces,
        p.place.index < passed.length + i := by
  induction text generalizing skip operandExpected passed with
  | nil => cases h
  | cons c rest ih =>
    cases skip with
    | succ skip =>
      rw [ahead_succ] at h ⊢
      obtain ⟨d, i, hf, hi, hp⟩ := ih h
      rw [List.length_cons, Nat.add_right_comm, Nat.add_assoc] at hf hp
      exact ⟨d, i + 1, hf, hi, hp⟩
    | zero =>
      cases hr : Lexeme.read s operandExpected ⟨passed, c :: rest⟩ with
      | error f' =>
        rw [ahead_of_error hr] at h ⊢
        cases h
        exact ⟨c, 0, Lexeme.eq_unknownSymbol_of_read hr, rfl, by simp⟩
      | ok l =>
        rw [ahead_of_ok hr] at h ⊢
        obtain ⟨d, i, hf, hi, hp⟩ := ih h
        rw [List.length_cons, Nat.add_right_comm, Nat.add_assoc] at hf hp
        refine ⟨d, i + 1, hf, hi, fun p hm => ?_⟩
        rcases List.mem_cons.mp hm with rfl | hm
        · exact Nat.lt_add_of_pos_right (Nat.succ_pos i)
        · exact hp p hm

theorem ofText_fault {s : Settings} {text : List Char} {f : Failure}
    (h : (ofText s text).fault = some f) :
    ∃ c i, f = .unknownSymbol c i ∧ text[i]? = some c ∧
      ∀ p ∈ (ofText s text).pieces, p.place.index < i := by
  obtain ⟨c, i, hf, hi, hp⟩ := ahead_fault h
  rw [List.length_nil, Nat.zero_add] at hf hp
  exact ⟨c, i, hf, hi, hp⟩

end Reading

end InfixCalculator
