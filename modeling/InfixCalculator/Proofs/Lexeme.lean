import InfixCalculator.Proofs.Brackets.Depth

/-! How pieces are written. A piece with all its characters is read from them and from next to
nothing else: of the text before it only an exponent mark with its sign counts, of the text behind
it only the first character. -/

namespace InfixCalculator

namespace Numeral

theorem isLiteral_scan {c : Char} (rest : List Char) (hd : c.isDigit) :
    (scan (c :: rest)).IsLiteral where
  whole_ne_nil := by simp [scan, hd]
  isDigit := fun _ => isDigit_of_mem_scan

/-- The longest numeral of a text ends there. -/
theorem exists_scan_append (cs : List Char) :
    ∃ rest, cs = (scan cs).text ++ rest ∧ (scan cs).EndsBefore rest := by
  have hcs := List.takeWhile_append_dropWhile (p := Char.isDigit) (l := cs)
  have hhead (ds : List Char) : ∀ c ∈ (ds.dropWhile Char.isDigit).head?, c.isDigit = false := by
    intro c hc
    have hnot := List.head?_dropWhile_not Char.isDigit ds
    rw [hc] at hnot
    exact hnot
  cases hd : cs.dropWhile Char.isDigit with
  | nil =>
    have hscan : scan cs = ⟨cs.takeWhile Char.isDigit, none⟩ := by simp [scan, hd]
    rw [hd] at hcs
    exact ⟨[], by simpa [hscan, text] using hcs.symm, by rintro _ ⟨⟩⟩
  | cons c rest =>
    by_cases hp : c = '.'
    · subst hp
      have hscan : scan cs = ⟨cs.takeWhile Char.isDigit, some (rest.takeWhile Char.isDigit)⟩ := by
        simp [scan, hd]
      refine ⟨rest.dropWhile Char.isDigit, ?_, fun c hc => ⟨hhead rest c hc, ?_⟩⟩
      · rw [hd] at hcs
        simp [hscan, text, hcs]
      · rw [hscan]
        rintro ⟨⟩
    · have hscan : scan cs = ⟨cs.takeWhile Char.isDigit, none⟩ := by
        simp [scan, hd, hp]
      refine ⟨c :: rest, ?_, ?_⟩
      · rw [hd] at hcs
        simp [hscan, text, hcs]
      · rintro _ ⟨⟩
        exact ⟨hhead cs c (by rw [hd]; rfl), fun _ => hp⟩

end Numeral

namespace Token

/-- A name is neither the subtraction nor the sign. -/
theorem ne_of_named? {t : Token} {c : Char} {next : Option Char} (h : named? c next = some t) :
    t ≠ .binary .sub ∧ t ≠ .unary .neg := by
  unfold named? at h
  split at h <;> cases h <;> exact ⟨nofun, nofun⟩

/-- A single character is never the sign, and the subtraction only if it is a minus. -/
theorem ne_of_single? {t : Token} {c : Char} (h : single? c = some t) :
    (t = .binary .sub → c = '-') ∧ t ≠ .unary .neg := by
  unfold single? at h
  split at h <;> cases h <;> exact ⟨by simp, nofun⟩

/-- A minus is the sign exactly where an operand is expected. -/
theorem expected_of_startingWith? {t : Token} {operandExpected : Bool} {c : Char}
    {next : Option Char} (h : startingWith? operandExpected c next = some t) :
    (t = .binary .sub → operandExpected = false) ∧ (t = .unary .neg → operandExpected = true) := by
  rw [startingWith?] at h
  split at h
  · rename_i hminus
    cases h
    exact ⟨fun ht => absurd ht (by decide), fun _ => hminus.2⟩
  · rename_i hminus
    rcases Option.or_eq_some_iff.mp h with hsingle | ⟨-, hnamed⟩
    · obtain ⟨hsub, hneg⟩ := ne_of_single? hsingle
      refine ⟨fun ht => ?_, fun ht => absurd ht hneg⟩
      cases hb : operandExpected
      · rfl
      · exact absurd ⟨hsub ht, hb⟩ hminus
    · obtain ⟨hsub, hneg⟩ := ne_of_named? hnamed
      exact ⟨fun ht => absurd ht hsub, fun ht => absurd ht hneg⟩

end Token

namespace Lexeme

/-- What a piece is written with, between the text passed and the text behind it. -/
inductive Written (s : Settings) (operandExpected : Bool) (passed : List Char) :
    List Char → List Char → Lexeme → Prop
  | numeral {n : Numeral} {rest : List Char} : n.IsLiteral → n.EndsBefore rest →
    pendingSign? s passed = none → Written s operandExpected passed n.text rest (.numeral n)
  | scaling {n : Numeral} {rest : List Char} {negative : Bool} : n.IsLiteral → n.EndsBefore rest →
    pendingSign? s passed = some negative →
    Written s operandExpected passed n.text rest (.scaling negative n)
  | variableMark {c : Char} {rest : List Char} : c.isDigit = false → s.isVariable c →
    Written s operandExpected passed [c] rest .variableMark
  | exponentMark {c : Char} {sign : Option Char} {rest : List Char} : c.isDigit = false →
    s.isVariable c = false → s.isExponent c → (sign.toList ++ rest).head?.filter isSign = sign →
    Written s operandExpected passed (c :: sign.toList) rest (.exponentMark sign)
  | token {t : Token} {rest : List Char} :
    (∀ c ∈ t.letters, s.isVariable c = false ∧ s.isExponent c = false) →
    (t = .binary .sub → operandExpected = false) → (t = .unary .neg → operandExpected = true) →
    Written s operandExpected passed t.letters rest (.token t operandExpected)

variable {s : Settings} {operandExpected : Bool} {passed chunk rest text : List Char} {l : Lexeme}

theorem Written.width_eq (h : Written s operandExpected passed chunk rest l) :
    l.width = chunk.length := by
  cases h with
  | numeral _ _ _ | scaling _ _ _ | variableMark _ _ => rfl
  | @exponentMark _ sign _ _ _ _ _ => cases sign <;> rfl
  | token _ _ _ => exact Token.width_eq _

/-- A written piece is read. -/
theorem Written.read (h : Written s operandExpected passed chunk rest l) :
    Lexeme.read s operandExpected ⟨passed, chunk ++ rest⟩ = .ok l := by
  cases h with
  | @numeral n _ hn he hp | @scaling n _ _ hn he hp =>
    obtain ⟨c, tail, ht, hd⟩ := Numeral.exists_text_eq hn
    have hread : Lexeme.read s operandExpected ⟨passed, n.text ++ rest⟩ =
        .ok (readNumeral s ⟨passed, n.text ++ rest⟩) := by
      rw [ht]
      exact read_of_isDigit hd
    rw [hread, readNumeral, hp]
    simp only [Numeral.scan_append hn he]
  | variableMark hd hx => simp [Lexeme.read, hd, hx]
  | @exponentMark c sign _ hd hx hE hs =>
    simp only [List.cons_append, Lexeme.read, hd, hx, hE, hs, Bool.false_eq_true, if_false, if_true]
  | @token t _ hm hsub hneg =>
    obtain ⟨c, tail, hl⟩ := List.exists_cons_of_ne_nil t.letters_ne_nil
    have hc : c ∈ t.letters := hl ▸ List.mem_cons_self
    have ht := Token.startingWith?_letters hl hsub hneg rest
    obtain ⟨hx, hE⟩ := hm c hc
    simp only [hl, List.cons_append, Lexeme.read, (Token.of_mem_letters hc).1, hx, hE, Token.read,
      ht, Bool.false_eq_true, if_false, Except.map]

theorem Written.isSpelledOut (h : Written s operandExpected passed chunk rest l) :
    Piece.isSpelledOut ⟨⟨passed, chunk ++ rest⟩, l⟩ := by
  cases h with
  | token _ _ _ => exact Reading.isSpelledOut_letters _
  | numeral _ _ _ | scaling _ _ _ | variableMark _ _ | exponentMark _ _ _ _ => rfl

/-- The brackets among the characters of a written piece. -/
theorem Written.only_eq (h : Written s operandExpected passed chunk rest l)
    (hs : s.HasDefaultMarkers) : Brackets.only chunk = l.bracket?.toList := by
  have hchunk : (chunk ++ rest).take l.width = chunk := by rw [h.width_eq, List.take_left]
  rw [← only_take_width hs h.read, hchunk]
  rintro t _ rfl
  exact List.isPrefixOf_iff_prefix.mp h.isSpelledOut

/-- A piece that is read with all its characters is written with them. -/
theorem exists_written (hs : s.HasDefaultMarkers)
    (hr : read s operandExpected ⟨passed, text⟩ = .ok l)
    (hl : Piece.isSpelledOut ⟨⟨passed, text⟩, l⟩) :
    ∃ chunk rest, text = chunk ++ rest ∧ Written s operandExpected passed chunk rest l := by
  have hx : s.isVariable 'x' := hs.isVariable_iff.mpr rfl
  have hE : s.isExponent 'E' := hs.isExponent_iff.mpr rfl
  cases found_of_read hr with
  | @numeral c _ ha hd hp | @scaling c _ _ ha hd hp =>
    obtain ⟨rest, hrest, he⟩ := Numeral.exists_scan_append text
    have hn : (Numeral.scan text).IsLiteral :=
      (show text = c :: _ from ha) ▸ Numeral.isLiteral_scan _ hd
    exact ⟨_, rest, hrest, by constructor <;> assumption⟩
  | @variableMark c rest ha hc =>
    cases ha
    rw [hs.isVariable_iff.mp hc]
    exact ⟨['x'], rest, rfl, .variableMark rfl hx⟩
  | @exponentMark c rest ha hc =>
    cases ha
    rw [hs.isExponent_iff.mp hc]
    have hx' : s.isVariable 'E' = false := hs.isVariable_eq_false (by decide)
    have hmark (sign : Option Char) {rest : List Char}
        (h : (sign.toList ++ rest).head?.filter isSign = sign) :
        Written s operandExpected passed ('E' :: sign.toList) rest (.exponentMark sign) :=
      .exponentMark rfl hx' hE h
    cases rest with
    | nil => exact ⟨['E'], [], rfl, hmark none rfl⟩
    | cons sign tail =>
      by_cases hsign : isSign sign
      · refine ⟨['E', sign], tail, rfl, ?_⟩
        simp only [List.head?_cons, Option.filter_some, hsign, if_true]
        exact hmark (some sign) (by simp [hsign])
      · refine ⟨['E'], sign :: tail, rfl, ?_⟩
        simp only [List.head?_cons, Option.filter_some, hsign]
        exact hmark none (by simp [hsign])
  | @token c rest t ha ht =>
    have hprefix : t.symbol.toList <+: text := List.isPrefixOf_iff_prefix.mp hl
    rw [t.symbol_toList] at hprefix
    obtain ⟨tail, htail⟩ := hprefix
    obtain ⟨hsub, hneg⟩ := Token.expected_of_startingWith? ht
    refine ⟨t.letters, tail, htail.symm, .token (fun c hc => ?_) hsub hneg⟩
    obtain ⟨-, -, hcx, hcE⟩ := Token.of_mem_letters hc
    exact ⟨hs.isVariable_eq_false hcx, hs.isExponent_eq_false hcE⟩

/-! ## Characters that start no piece -/

/-- Whether no piece starts with the character, `next` being the one behind it. -/
structure Unreadable (s : Settings) (operandExpected : Bool) (c : Char) (next : Option Char) :
    Prop where
  isDigit : c.isDigit = false
  isVariable : s.isVariable c = false
  isExponent : s.isExponent c = false
  startingWith? : Token.startingWith? operandExpected c next = none

theorem read_eq_error_iff {c : Char} {failure : Failure} :
    read s operandExpected ⟨passed, c :: rest⟩ = .error failure ↔
      Unreadable s operandExpected c rest.head? ∧ failure = .unknownSymbol c passed.length := by
  constructor
  · intro h
    refine ⟨?_, eq_unknownSymbol_of_read h⟩
    simp only [read] at h
    split at h
    · cases h
    · split at h
      · cases h
      · split at h
        · cases h
        · rename_i hd hx hE
          simp only [Token.read] at h
          cases ht : Token.startingWith? operandExpected c rest.head? with
          | some t => rw [ht] at h; cases h
          | none => exact ⟨by simpa using hd, by simpa using hx, by simpa using hE, ht⟩
  · rintro ⟨⟨hd, hx, hE, ht⟩, rfl⟩
    simp [read, hd, hx, hE, Token.read, ht, Except.map, Cursor.index]

end Lexeme

end InfixCalculator
