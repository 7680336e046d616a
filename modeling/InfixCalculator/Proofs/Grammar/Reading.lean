import InfixCalculator.Grammar
import InfixCalculator.Program
import InfixCalculator.Proofs.Reading
import InfixCalculator.Proofs.Token

/-! The pieces of a well-formed text. A numeral ends where neither a digit nor a point follows, and
only the one behind an exponent mark is an exponent: in front of every operand stands a bracket, an
operator or nothing, never an exponent mark with its sign. -/

namespace InfixCalculator

/-- The markers that the program runs with unless it is told otherwise. -/
structure Settings.HasDefaultMarkers (s : Settings) : Prop where
  variableMarker : s.variableMarker = "x"
  exponentMarker : s.exponentMarker = "E"

namespace Settings.HasDefaultMarkers

variable {s : Settings} (hs : s.HasDefaultMarkers)
include hs

theorem isVariable_iff {c : Char} : s.isVariable c ↔ c = 'x' := by
  rw [Settings.isVariable, hs.variableMarker]
  simp [marks, eq_comm]

theorem isExponent_iff {c : Char} : s.isExponent c ↔ c = 'E' := by
  rw [Settings.isExponent, hs.exponentMarker]
  simp [marks, eq_comm]

theorem isVariable_eq_false {c : Char} (h : c ≠ 'x') : s.isVariable c = false :=
  Bool.eq_false_iff.mpr (mt hs.isVariable_iff.mp h)

theorem isExponent_eq_false {c : Char} (h : c ≠ 'E') : s.isExponent c = false :=
  Bool.eq_false_iff.mpr (mt hs.isExponent_iff.mp h)

end Settings.HasDefaultMarkers

namespace Numeral

/-- A text that cannot go on a numeral. -/
def Stops (rest : List Char) : Prop := ∀ c ∈ rest.head?, c.isDigit = false ∧ c ≠ '.'

theorem stops_nil : Stops [] := fun _ h => nomatch h

theorem stops_cons {c : Char} {rest : List Char} (hd : c.isDigit = false) (hp : c ≠ '.') :
    Stops (c :: rest) := by
  rintro _ ⟨⟩
  exact ⟨hd, hp⟩

theorem takeWhile_isDigit_append {ds rest : List Char} (hd : ∀ c ∈ ds, c.isDigit)
    (hr : ∀ c ∈ rest.head?, c.isDigit = false) :
    (ds ++ rest).takeWhile Char.isDigit = ds ∧ (ds ++ rest).dropWhile Char.isDigit = rest := by
  rw [List.takeWhile_append_of_pos hd, List.dropWhile_append_of_pos hd]
  cases rest with
  | nil => simp
  | cons c rest => simp [hr c rfl]

/-- Whether the numeral ends where the text begins, no character of which goes on it. -/
def EndsBefore (n : Numeral) (rest : List Char) : Prop :=
  ∀ c ∈ rest.head?, c.isDigit = false ∧ (n.fraction = none → c ≠ '.')

theorem Stops.endsBefore {rest : List Char} (h : Stops rest) (n : Numeral) : n.EndsBefore rest :=
  fun c hc => ⟨(h c hc).1, fun _ => (h c hc).2⟩

/-- A literal is read back where it ends. -/
theorem scan_append {n : Numeral} {rest : List Char} (hn : n.IsLiteral) (hr : n.EndsBefore rest) :
    scan (n.text ++ rest) = n := by
  have hw : ∀ c ∈ n.whole, c.isDigit := fun c hc => hn.isDigit c (List.mem_append_left _ hc)
  obtain ⟨whole, fraction⟩ := n
  cases fraction with
  | none =>
    obtain ⟨ht, hd⟩ := takeWhile_isDigit_append hw fun c hc => (hr c hc).1
    simp only [scan, text, Option.map_none, Option.getD_none, List.append_nil, ht, hd]
    split
    · exact absurd rfl ((hr '.' rfl).2 rfl)
    · rfl
  | some ds =>
    have hds : ∀ c ∈ ds, c.isDigit := fun c hc => hn.isDigit c (List.mem_append_right _ hc)
    have hpoint : ∀ c ∈ ('.' :: (ds ++ rest)).head?, c.isDigit = false := by
      rintro _ ⟨⟩
      rfl
    obtain ⟨ht, hd⟩ := takeWhile_isDigit_append hw hpoint
    simp [scan, text, ht, hd, (takeWhile_isDigit_append hds fun c hc => (hr c hc).1).1]

/-- A literal is read back as it is written. -/
theorem scan_text_append {n : Numeral} {rest : List Char} (hn : n.IsLiteral) (hr : Stops rest) :
    scan (n.text ++ rest) = n :=
  scan_append hn (hr.endsBefore n)

/-- A numeral is written with its digits and a point. -/
theorem mem_digits_or_eq_of_mem_text {n : Numeral} {c : Char} (h : c ∈ n.text) :
    c ∈ n.digits ∨ c = '.' := by
  rw [text] at h
  rw [digits]
  cases hf : n.fraction with
  | none => exact .inl (by simpa [hf] using h)
  | some ds =>
    simp only [hf, Option.map_some, Option.getD_some, List.mem_append, List.mem_cons] at h ⊢
    rcases h with h | rfl | h
    · exact .inl (.inl h)
    · exact .inr rfl
    · exact .inl (.inr h)

theorem mem_text_of_mem_digits {n : Numeral} {c : Char} (h : c ∈ n.digits) : c ∈ n.text := by
  rw [digits, List.mem_append] at h
  rw [text, List.mem_append]
  rcases h with h | h
  · exact .inl h
  · cases hf : n.fraction with
    | none => simp [hf] at h
    | some ds => simpa [hf] using Or.inr (Or.inr h)

theorem exists_text_eq {n : Numeral} (hn : n.IsLiteral) :
    ∃ c rest, n.text = c :: rest ∧ c.isDigit := by
  obtain ⟨c, rest, hw⟩ := List.exists_cons_of_ne_nil hn.whole_ne_nil
  refine ⟨c, _, by rw [text, hw]; rfl, hn.isDigit c ?_⟩
  simp [digits, hw]

/-- The last character of a numeral is a digit or the point. -/
theorem exists_reverse_text_eq {n : Numeral} (hn : n.IsLiteral) :
    ∃ c front, n.text.reverse = c :: front ∧ (c.isDigit ∨ c = '.') := by
  obtain ⟨first, tail, ht, -⟩ := exists_text_eq hn
  obtain ⟨c, front, hrev⟩ : ∃ c front, n.text.reverse = c :: front :=
    List.exists_cons_of_ne_nil (by simp [ht])
  have hc : c ∈ n.text := List.mem_reverse.mp (hrev ▸ List.mem_cons_self)
  exact ⟨c, front, hrev, (mem_digits_or_eq_of_mem_text hc).imp_left (hn.isDigit c)⟩

end Numeral

/-! ## Single pieces -/

namespace Lexeme

variable {s : Settings} {operandExpected : Bool} {passed rest : List Char} {c : Char}

theorem read_of_isDigit (hd : c.isDigit) :
    read s operandExpected ⟨passed, c :: rest⟩ = .ok (readNumeral s ⟨passed, c :: rest⟩) := by
  simp [read, hd]

section
variable (hs : s.HasDefaultMarkers)
include hs

theorem read_variableMark : read s operandExpected ⟨passed, 'x' :: rest⟩ = .ok variableMark := by
  have hx : s.isVariable 'x' := hs.isVariable_iff.mpr rfl
  have hd : ('x').isDigit = false := rfl
  simp [read, hd, hx]

theorem read_exponentMark :
    read s operandExpected ⟨passed, 'E' :: rest⟩ =
      .ok (exponentMark (rest.head?.filter isSign)) := by
  have hx : ¬ s.isVariable 'E' := by rw [hs.isVariable_iff]; decide
  have hE : s.isExponent 'E' := hs.isExponent_iff.mpr rfl
  have hd : ('E').isDigit = false := rfl
  simp [read, hd, hx, hE]

/-- Everything but digits, the variable and the exponent mark is looked up as a token. -/
theorem read_token {t : Token} (hd : c.isDigit = false) (hx : c ≠ 'x') (hE : c ≠ 'E')
    (ht : Token.startingWith? operandExpected c rest.head? = some t) :
    read s operandExpected ⟨passed, c :: rest⟩ = .ok (token t operandExpected) := by
  have hx' : ¬ s.isVariable c := fun h => hx (hs.isVariable_iff.mp h)
  have hE' : ¬ s.isExponent c := fun h => hE (hs.isExponent_iff.mp h)
  simp [read, hd, hx', hE', Token.read, ht, Except.map]

/-- A symbol is read as its token. -/
theorem read_letters {t : Token} (hsub : t = .binary .sub → operandExpected = false)
    (hneg : t = .unary .neg → operandExpected = true) :
    read s operandExpected ⟨passed, t.letters ++ rest⟩ = .ok (token t operandExpected) := by
  obtain ⟨c, tail, hl⟩ := List.exists_cons_of_ne_nil t.letters_ne_nil
  obtain ⟨hd, -, hx, hE⟩ := Token.of_mem_letters (t := t) (hl ▸ List.mem_cons_self)
  rw [hl, List.cons_append]
  exact read_token hs hd hx hE (Token.startingWith?_letters hl hsub hneg rest)

end

end Lexeme

/-! ## Where an operand begins -/

/-- A place that no exponent mark leads up to, with or without a sign. -/
structure Lexeme.Fresh (s : Settings) (passed : List Char) : Prop where
  pendingSign : pendingSign? s passed = none
  head_ne : passed.head? ≠ some 'E'

namespace Lexeme

variable {s : Settings} {passed : List Char}

theorem fresh_nil : Fresh s [] := ⟨rfl, nofun⟩

theorem fresh_cons (hs : s.HasDefaultMarkers) {c : Char} (hc : c ≠ 'E')
    (hp : passed.head? ≠ some 'E') : Fresh s (c :: passed) where
  pendingSign := by
    cases passed with
    | nil => rfl
    | cons mark rest =>
      have hm : ¬ s.isExponent mark := fun h => hp (congrArg some (hs.isExponent_iff.mp h))
      simp [pendingSign?, hm]
  head_ne := fun h => hc (Option.some.inj h)

theorem head?_append_ne {front : List Char} (hf : ∀ c ∈ front, c ≠ 'E')
    (hp : passed.head? ≠ some 'E') : (front ++ passed).head? ≠ some 'E' := by
  cases front with
  | nil => exact hp
  | cons c rest => exact fun h => hf c List.mem_cons_self (Option.some.inj h)

/-- Behind a numeral comes no exponent, since a numeral has neither a mark nor a sign in it. -/
theorem fresh_text {n : Numeral} (hn : n.IsLiteral) : Fresh s (n.text.reverse ++ passed) := by
  obtain ⟨c, front, hrev, hc⟩ := Numeral.exists_reverse_text_eq hn
  have hne {d : Char} (hd : ¬ (d.isDigit ∨ d = '.')) : c ≠ d := by
    rintro rfl
    exact hd hc
  have hsign : isSign c = false := by
    simp [isSign, hne (d := '+') (by decide), hne (d := '-') (by decide)]
  rw [hrev]
  constructor
  · cases h : front ++ passed <;> simp [pendingSign?, h, hsign]
  · simpa using hne (d := 'E') (by decide)

/-- Behind a symbol a numeral is no exponent, since no symbol ends in an exponent mark. -/
theorem fresh_letters (hs : s.HasDefaultMarkers) (t : Token) (hp : passed.head? ≠ some 'E') :
    Fresh s (t.letters.reverse ++ passed) := by
  have hE : ∀ c ∈ t.letters.reverse, c ≠ 'E' := fun c hc =>
    (Token.of_mem_letters (List.mem_reverse.mp hc)).2.2.2
  obtain ⟨c, rest, hl⟩ := List.exists_cons_of_ne_nil
    (mt List.reverse_eq_nil_iff.mp t.letters_ne_nil)
  rw [hl] at hE ⊢
  exact fresh_cons hs (hE c List.mem_cons_self)
    (head?_append_ne (fun d hd => hE d (List.mem_cons_of_mem _ hd)) hp)

end Lexeme

/-! ## Spelled texts -/

/-- Whether the reading of a text finds the given pieces, with all characters of their symbols, and
then goes on with the text `rest`. -/
def Reading.Passes (s : Settings) (ls : List Lexeme) (operandExpected : Bool)
    (passed text : List Char) (operandExpected' : Bool) (passed' rest : List Char) : Prop :=
  ∃ ps, ps.map Piece.lexeme = ls ∧ ps.all Piece.isSpelledOut ∧
    (ahead s 0 operandExpected passed text).pieces =
      ps ++ (ahead s 0 operandExpected' passed' rest).pieces ∧
    (ahead s 0 operandExpected passed text).fault =
      (ahead s 0 operandExpected' passed' rest).fault

namespace Reading

variable {s : Settings} {operandExpected : Bool} {passed rest : List Char}

theorem passes_nil : Passes s [] operandExpected passed rest operandExpected passed rest :=
  ⟨[], rfl, rfl, rfl, rfl⟩

theorem Passes.trans {ls ls' : List Lexeme} {a b c : Bool} {p q r t u v : List Char}
    (h : Passes s ls a p t b q u) (h' : Passes s ls' b q u c r v) :
    Passes s (ls ++ ls') a p t c r v := by
  obtain ⟨ps, hps, hsp, hp, hf⟩ := h
  obtain ⟨ps', hps', hsp', hp', hf'⟩ := h'
  refine ⟨ps ++ ps', by simp [hps, hps'], ?_, ?_, hf.trans hf'⟩
  · rw [List.all_append, hsp, hsp']; rfl
  · rw [hp, hp', List.append_assoc]

theorem passes_of_read {symbol : List Char} {l : Lexeme}
    (hr : Lexeme.read s operandExpected ⟨passed, symbol ++ rest⟩ = .ok l)
    (hw : l.width = symbol.length) (hl : Piece.isSpelledOut ⟨⟨passed, symbol ++ rest⟩, l⟩) :
    Passes s [l] operandExpected passed (symbol ++ rest) (l.expectsOperand operandExpected)
      (symbol.reverse ++ passed) rest := by
  rw [Passes, ahead_append hr hw]
  exact ⟨[_], rfl, by rw [List.all_cons, hl]; rfl, rfl, rfl⟩

theorem isSpelledOut_letters (t : Token) :
    Piece.isSpelledOut ⟨⟨passed, t.letters ++ rest⟩, .token t operandExpected⟩ := by
  show t.symbol.toList.isPrefixOf (t.letters ++ rest)
  rw [t.symbol_toList, List.isPrefixOf_iff_prefix]
  exact List.prefix_append _ _

theorem passes_letters (hs : s.HasDefaultMarkers) {t : Token}
    (hsub : t = .binary .sub → operandExpected = false)
    (hneg : t = .unary .neg → operandExpected = true) :
    Passes s [.token t operandExpected] operandExpected passed (t.letters ++ rest)
      t.expectsOperand (t.letters.reverse ++ passed) rest :=
  passes_of_read (Lexeme.read_letters hs hsub hneg) t.width_eq (isSpelledOut_letters t)

/-- A literal is read whole, as an exponent or not. -/
theorem passes_numeral {n : Numeral} (hn : n.IsLiteral) {l : Lexeme}
    (hl : Lexeme.readNumeral s ⟨passed, n.text ++ rest⟩ = l) (hw : l.width = n.text.length)
    (hp : Piece.isSpelledOut ⟨⟨passed, n.text ++ rest⟩, l⟩) :
    Passes s [l] operandExpected passed (n.text ++ rest) (l.expectsOperand operandExpected)
      (n.text.reverse ++ passed) rest := by
  obtain ⟨c, tail, ht, hd⟩ := Numeral.exists_text_eq hn
  refine passes_of_read ?_ hw hp
  rw [← hl, ht]
  exact Lexeme.read_of_isDigit hd

end Reading

namespace Grammar
open Lexeme (Fresh)
open Numeral (Stops)
open Reading (Passes)

variable {s : Settings}

/-- Whether a text is read as the given pieces wherever an operand is expected and no character
behind it goes on its last numeral. -/
def Reads (s : Settings) (text : List Char) (ls : List Lexeme) : Prop :=
  ∀ passed rest, Fresh s passed → Stops rest →
    (text.reverse ++ passed).head? ≠ some 'E' ∧
    Passes s ls true passed (text ++ rest) false (text.reverse ++ passed) rest

theorem stops_letters (t : Token) (rest : List Char) : Stops (t.letters ++ rest) := by
  obtain ⟨c, tail, hl⟩ := List.exists_cons_of_ne_nil t.letters_ne_nil
  obtain ⟨hd, hp, -⟩ := Token.of_mem_letters (t := t) (hl ▸ List.mem_cons_self)
  rw [hl]
  exact Numeral.stops_cons hd hp

theorem reads_numeral {n : Numeral} (hn : n.IsLiteral) : Reads s n.text [.numeral n] := by
  intro passed rest hf hr
  refine ⟨(Lexeme.fresh_text (s := s) hn).head_ne, Reading.passes_numeral hn ?_ rfl rfl⟩
  simp [Lexeme.readNumeral, hf.pendingSign, Numeral.scan_text_append hn hr]

theorem reads_variableMark (hs : s.HasDefaultMarkers) : Reads s ['x'] [.variableMark] := by
  intro passed rest _ _
  exact ⟨by simp, @Reading.passes_of_read s true _ _ ['x'] _ (Lexeme.read_variableMark hs) rfl rfl⟩

theorem reads_bracketed (hs : s.HasDefaultMarkers) {text : List Char} {ls : List Lexeme}
    (h : Reads s text ls) :
    Reads s ('(' :: (text ++ [')']))
      (.token .openBracket true :: (ls ++ [.token .closeBracket false])) := by
  intro passed rest hf _
  have hopen : Passes s [.token .openBracket true] true passed ('(' :: (text ++ ')' :: rest)) true
      ('(' :: passed) (text ++ ')' :: rest) :=
    Reading.passes_letters (t := .openBracket) hs nofun nofun
  obtain ⟨-, hinner⟩ := h ('(' :: passed) (')' :: rest)
    (Lexeme.fresh_letters hs .openBracket hf.head_ne) (stops_letters .closeBracket rest)
  have hclose : Passes s [.token .closeBracket false] false (text.reverse ++ '(' :: passed)
      (')' :: rest) false (')' :: (text.reverse ++ '(' :: passed)) rest :=
    Reading.passes_letters (t := .closeBracket) hs nofun nofun
  refine ⟨by simp, ?_⟩
  simpa using hopen.trans (hinner.trans hclose)

theorem reads_scaled (hs : s.HasDefaultMarkers) {text : List Char} {ls : List Lexeme}
    {n : Numeral} (negative : Bool) (h : Reads s text ls) (hn : n.IsLiteral) :
    Reads s (text ++ 'E' :: signOf negative :: n.text)
      (ls ++ [.exponentMark (some (signOf negative)), .scaling negative n]) := by
  intro passed rest hf hr
  have hsign : isSign (signOf negative) := by cases negative <;> decide
  obtain ⟨-, hbase⟩ := h passed ('E' :: signOf negative :: (n.text ++ rest)) hf
    (Numeral.stops_cons rfl (by decide))
  have hmark : Passes s [.exponentMark (some (signOf negative))] false (text.reverse ++ passed)
      ('E' :: signOf negative :: (n.text ++ rest)) false
      (signOf negative :: 'E' :: (text.reverse ++ passed)) (n.text ++ rest) := by
    have hfilter : (some (signOf negative)).filter isSign = some (signOf negative) := by
      cases negative <;> rfl
    have hread : Lexeme.read s false
        ⟨text.reverse ++ passed, 'E' :: signOf negative :: (n.text ++ rest)⟩ =
        .ok (.exponentMark (some (signOf negative))) := by
      rw [Lexeme.read_exponentMark hs, List.head?_cons, hfilter]
    exact @Reading.passes_of_read s false _ _ ['E', signOf negative] _ hread rfl rfl
  have hexp : Passes s [.scaling negative n] false
      (signOf negative :: 'E' :: (text.reverse ++ passed)) (n.text ++ rest) false
      (n.text.reverse ++ signOf negative :: 'E' :: (text.reverse ++ passed)) rest := by
    refine Reading.passes_numeral hn ?_ rfl rfl
    have hE : s.isExponent 'E' := hs.isExponent_iff.mpr rfl
    have hneg : (signOf negative == '-') = negative := by cases negative <;> decide
    simp [Lexeme.readNumeral, Lexeme.pendingSign?, hsign, hE, hneg,
      Numeral.scan_text_append hn hr]
  refine ⟨?_, by simpa using hbase.trans (hmark.trans hexp)⟩
  have hhead : (n.text.reverse ++ signOf negative :: 'E' :: (text.reverse ++ passed)).head? ≠
      some 'E' := (Lexeme.fresh_text (s := s) hn).head_ne
  simpa using hhead

theorem reads_unary (hs : s.HasDefaultMarkers) {text : List Char} {ls : List Lexeme}
    (op : PrefixOp) (h : Reads s text ls) :
    Reads s (op.symbol.toList ++ text) (.token (.unary op) true :: ls) := by
  intro passed rest hf hr
  have hop : op.symbol.toList = (Token.unary op).letters := Token.symbol_toList (.unary op)
  have hsym : Passes s [.token (.unary op) true] true passed
      ((Token.unary op).letters ++ (text ++ rest)) true
      ((Token.unary op).letters.reverse ++ passed) (text ++ rest) :=
    Reading.passes_letters hs nofun fun _ => rfl
  obtain ⟨hE, hoperand⟩ := h ((Token.unary op).letters.reverse ++ passed) rest
    (Lexeme.fresh_letters hs _ hf.head_ne) hr
  rw [hop, List.append_assoc, List.reverse_append, List.append_assoc]
  exact ⟨hE, hsym.trans hoperand⟩

theorem reads_binary (hs : s.HasDefaultMarkers) {left right : List Char} {ls rs : List Lexeme}
    (op : BinaryOp) (hl : Reads s left ls) (hr : Reads s right rs) :
    Reads s (left ++ op.symbol.toList ++ right) (ls ++ .token (.binary op) false :: rs) := by
  intro passed rest hf hrest
  have hop : op.symbol.toList = (Token.binary op).letters := Token.symbol_toList (.binary op)
  obtain ⟨hE, hleft⟩ := hl passed ((Token.binary op).letters ++ (right ++ rest)) hf
    (stops_letters _ _)
  have hsym : Passes s [.token (.binary op) false] false (left.reverse ++ passed)
      ((Token.binary op).letters ++ (right ++ rest)) true
      ((Token.binary op).letters.reverse ++ (left.reverse ++ passed)) (right ++ rest) :=
    Reading.passes_letters hs (fun _ => rfl) nofun
  obtain ⟨hE', hright⟩ := hr ((Token.binary op).letters.reverse ++ (left.reverse ++ passed)) rest
    (Lexeme.fresh_letters hs _ hE) hrest
  rw [hop]
  simp only [List.append_assoc, List.reverse_append]
  exact ⟨hE', hleft.trans (hsym.trans hright)⟩

end Grammar

end InfixCalculator
