import InfixCalculator.Proofs.Locality
import InfixCalculator.Proofs.Respelling

/-! Exponents and their marks. A numeral looks back at two characters to tell whether it is an
exponent; an exponent mark looks ahead at one to take its sign along. Where all symbols are written
out the two agree: the characters in front of a numeral are a mark and its sign exactly if they have
been passed as one piece. -/

namespace InfixCalculator

/-- The last character of a symbol is a sign only if it is the only one. -/
theorem Token.exists_reverse_letters (t : Token) :
    ∃ c front, t.letters.reverse = c :: front ∧ (isSign c → t.letters = [c]) := by
  cases t with
  | binary op => cases op <;> exact ⟨_, _, rfl, by decide⟩
  | unary op => cases op <;> exact ⟨_, _, rfl, by decide⟩
  | openBracket | closeBracket => exact ⟨_, _, rfl, by decide⟩

namespace Lexeme

variable {s : Settings} {operandExpected : Bool} {passed chunk rest : List Char} {l : Lexeme}

/-- Whether the piece leaves a sign to the numeral behind it, and if so, whether it is a minus. -/
def leavesSign? : Lexeme → Option Bool
  | exponentMark (some sign) => some (sign == '-')
  | numeral _ | scaling _ _ | variableMark | exponentMark none | token _ _ => none

theorem leavesSign?_eq_some_iff {negative : Bool} : l.leavesSign? = some negative ↔
    ∃ sign, l = .exponentMark (some sign) ∧ negative = (sign == '-') := by
  constructor
  · intro h
    cases l with
    | exponentMark sign =>
      cases sign with
      | none => cases h
      | some sign => exact ⟨sign, rfl, (Option.some.inj h).symm⟩
    | numeral _ | scaling _ _ | variableMark | token _ _ => cases h
  · rintro ⟨sign, rfl, rfl⟩
    rfl

/-- Whether no sign is ahead of an exponent mark, since the mark would have taken it along. -/
def SignTaken (s : Settings) (passed ahead : List Char) : Prop :=
  passed.head?.any s.isExponent → ahead.head?.any isSign = false

theorem signTaken_of_head?_ne (hs : s.HasDefaultMarkers) (h : passed.head? ≠ some 'E') :
    SignTaken s passed rest := by
  intro hmark
  obtain ⟨c, hc, hE⟩ := (Option.any_eq_true _ _).mp hmark
  rw [hc, hs.isExponent_iff.mp hE] at h
  exact absurd rfl h

theorem pendingSign?_of_isSign_eq_false {c : Char} (h : isSign c = false) :
    pendingSign? s (c :: passed) = none := by
  rw [pendingSign?_cons, h]
  rfl

/-- A sign that is a symbol of its own has no mark in front of it. -/
theorem pendingSign?_letters (t : Token) (hp : SignTaken s passed (t.letters ++ rest)) :
    pendingSign? s (t.letters.reverse ++ passed) = none := by
  obtain ⟨c, front, hrev, hsingle⟩ := t.exists_reverse_letters
  cases hsign : isSign c with
  | false =>
    rw [hrev]
    exact pendingSign?_of_isSign_eq_false hsign
  | true =>
    rw [hsingle hsign] at hp ⊢
    have hfront : passed.head?.any s.isExponent = false := by
      rw [Bool.eq_false_iff]
      intro hmark
      have hahead := hp hmark
      rw [List.singleton_append, List.head?_cons, Option.any_some, hsign] at hahead
      cases hahead
    show pendingSign? s (c :: passed) = none
    rw [pendingSign?_cons, hfront, Bool.and_false]
    rfl

/-- Behind a mark its sign is pending, and no other one is ahead. -/
theorem pendingSign?_mark {c : Char} {sign : Option Char} (hs : s.HasDefaultMarkers)
    (hE : s.isExponent c) (hsign : (sign.toList ++ rest).head?.filter isSign = sign) :
    pendingSign? s ((c :: sign.toList).reverse ++ passed) = (exponentMark sign).leavesSign? ∧
      SignTaken s ((c :: sign.toList).reverse ++ passed) rest := by
  cases sign with
  | none =>
    rw [hs.isExponent_iff.mp hE]
    refine ⟨pendingSign?_of_isSign_eq_false rfl, fun _ => ?_⟩
    cases rest with
    | nil => rfl
    | cons d tail => simpa using hsign
  | some sign =>
    have his : isSign sign := by simpa using hsign
    constructor
    · show pendingSign? s (sign :: c :: passed) = some (sign == '-')
      simp [pendingSign?_cons, his, hE]
    · refine signTaken_of_head?_ne hs ?_
      rintro ⟨⟩
      cases his

/-- What a piece leaves in front of the next one. -/
theorem Written.pendingSign?_eq (h : Written s operandExpected passed chunk rest l)
    (hs : s.HasDefaultMarkers) (hp : SignTaken s passed (chunk ++ rest)) :
    pendingSign? s (chunk.reverse ++ passed) = l.leavesSign? ∧
      SignTaken s (chunk.reverse ++ passed) rest := by
  cases h with
  | @numeral n _ hn _ _ | @scaling n _ _ hn _ _ =>
    have hfresh : Fresh s (n.text.reverse ++ passed) := fresh_text hn
    exact ⟨hfresh.pendingSign, signTaken_of_head?_ne hs hfresh.head_ne⟩
  | variableMark _ hx =>
    rw [hs.isVariable_iff.mp hx]
    exact ⟨pendingSign?_of_isSign_eq_false rfl, signTaken_of_head?_ne hs (by simp)⟩
  | exponentMark _ _ hE hsign => exact pendingSign?_mark hs hE hsign
  | @token t _ _ _ _ =>
    refine ⟨pendingSign?_letters t hp, signTaken_of_head?_ne hs ?_⟩
    obtain ⟨c, front, hrev, -⟩ := t.exists_reverse_letters
    have hc : c ∈ t.letters := List.mem_reverse.mp (hrev ▸ List.mem_cons_self)
    obtain ⟨-, -, -, hE⟩ := Token.of_mem_letters hc
    rw [hrev]
    exact fun h => hE (Option.some.inj h)

end Lexeme

namespace Configuration
open Lexeme (SignTaken Written pendingSign?)

variable {s : Settings} {x? : Option Float} {c c' c'' : Configuration} {l : Lexeme}
  {text : List Char} {log : Log}

def Reads (s : Settings) (c : Configuration) (l : Lexeme) : Prop :=
  Lexeme.read s c.operandExpected c.place = .ok l

theorem Step.exists_reads (h : Step s x? c c') :
    ∃ l, c.Reads s l ∧ c'.place = c.place.advance l.width := by
  cases h with
  | intro hr _ => exact ⟨_, hr, rfl⟩

theorem Step.place_eq (h : Step s x? c c') (hr : c.Reads s l) :
    c'.place = c.place.advance l.width := by
  obtain ⟨l', hr', hplace⟩ := h.exists_reads
  obtain rfl : l' = l := Except.ok.inj (hr'.symm.trans hr)
  exact hplace

/-- The characters ahead are those of the piece to be read next and the ones behind it. -/
theorem exists_written_of_reaches (hs : s.HasDefaultMarkers)
    (he : (Reading.ofText s text).IsSpelledOut) (h : Reaches s x? (initial text log) c)
    (hr : c.Reads s l) : ∃ chunk rest, Written s c.operandExpected c.place.passed chunk rest l ∧
      c.place.ahead = chunk ++ rest ∧
      c.place.advance l.width = ⟨chunk.reverse ++ c.place.passed, rest⟩ := by
  have hspelled := List.all_eq_true.mp (Reading.isSpelledOut_iff.mp he) _
    (mem_pieces_of_reaches h hr)
  obtain ⟨chunk, rest, hahead, hwritten⟩ := Lexeme.exists_written hs hr hspelled
  refine ⟨chunk, rest, hwritten, hahead, ?_⟩
  simp [Cursor.advance, hahead, hwritten.width_eq]

/-- Wherever the loop is, no exponent mark has left its sign ahead. -/
theorem signTaken_of_reaches (hs : s.HasDefaultMarkers)
    (he : (Reading.ofText s text).IsSpelledOut) (h : Reaches s x? (initial text log) c) :
    SignTaken s c.place.passed c.place.ahead := by
  induction h with
  | refl => exact Lexeme.signTaken_of_head?_ne hs nofun
  | tail hreach hstep ih =>
    obtain ⟨l, hr, hplace⟩ := hstep.exists_reads
    obtain ⟨chunk, rest, hwritten, hahead, hpassed⟩ := exists_written_of_reaches hs he hreach hr
    rw [hahead] at ih
    rw [hplace, hpassed]
    exact (hwritten.pendingSign?_eq hs ih).2

/-- What a numeral finds in front of it is what the piece just passed has left there. -/
theorem Step.pendingSign?_eq (h : Step s x? c c') (hs : s.HasDefaultMarkers)
    (he : (Reading.ofText s text).IsSpelledOut) (hreach : Reaches s x? (initial text log) c)
    (hr : c.Reads s l) : pendingSign? s c'.place.passed = l.leavesSign? := by
  obtain ⟨chunk, rest, hwritten, hahead, hpassed⟩ := exists_written_of_reaches hs he hreach hr
  have htaken := signTaken_of_reaches hs he hreach
  rw [hahead] at htaken
  rw [h.place_eq hr, hpassed]
  exact (hwritten.pendingSign?_eq hs htaken).1

/-! ## Between two steps -/

theorem index_mono_of_reaches (h : Reaches s x? c c') : c.place.index ≤ c'.place.index := by
  induction h with
  | refl => exact Nat.le_refl _
  | tail _ hstep ih => exact Nat.le_trans ih (Nat.le_of_lt hstep.index_lt)

/-- There is one way through a text, and it never stands inside a piece that a step passes. -/
theorem Step.index_le_or_le (h : Step s x? c c') (hreach : Reaches s x? (initial text log) c)
    (hreach' : Reaches s x? (initial text log) c'') :
    c''.place.index ≤ c.place.index ∨ c'.place.index ≤ c''.place.index := by
  rcases Relation.ReflTransGen.total_of_right_unique Step.rightUnique hreach hreach' with
    hbehind | hbefore
  · rcases hbehind.cases_head with heq | ⟨d, hstep, hrest⟩
    · exact .inl (heq ▸ Nat.le_refl _)
    · obtain rfl : d = c' := Step.rightUnique hstep h
      exact .inr (index_mono_of_reaches hrest)
  · exact .inl (index_mono_of_reaches hbefore)

/-! ## Numerals behind an exponent mark -/

/-- Whether the last step has passed an exponent mark together with the sign. -/
def BehindMark (s : Settings) (x? : Option Float) (start c : Configuration) (sign : Char) : Prop :=
  ∃ before, Reaches s x? start before ∧ Step s x? before c ∧
    before.Reads s (.exponentMark (some sign))

/-- The sign that a numeral finds in front of it is the one that a mark has taken along. -/
theorem pendingSign?_iff_behindMark (hs : s.HasDefaultMarkers)
    (he : (Reading.ofText s text).IsSpelledOut) (h : Reaches s x? (initial text log) c)
    (negative : Bool) : pendingSign? s c.place.passed = some negative ↔
      ∃ sign, BehindMark s x? (initial text log) c sign ∧ negative = (sign == '-') := by
  constructor
  · intro hp
    rcases h.cases_tail with rfl | ⟨before, hreach, hstep⟩
    · cases hp
    · obtain ⟨l, hr, -⟩ := hstep.exists_reads
      rw [hstep.pendingSign?_eq hs he hreach hr] at hp
      obtain ⟨sign, rfl, hsign⟩ := Lexeme.leavesSign?_eq_some_iff.mp hp
      exact ⟨sign, ⟨before, hreach, hstep, hr⟩, hsign⟩
  · rintro ⟨sign, ⟨before, hreach, hstep, hmark⟩, hsign⟩
    rw [hstep.pendingSign?_eq hs he hreach hmark, hsign]
    rfl

/-- The sign between a mark and its exponent is no piece of its own. -/
theorem BehindMark.index_ne {sign : Char} (hs : s.HasDefaultMarkers)
    (he : (Reading.ofText s text).IsSpelledOut) (h : BehindMark s x? (initial text log) c sign)
    (hreach : Reaches s x? (initial text log) c') : c'.place.index + 1 ≠ c.place.index := by
  obtain ⟨before, hbefore, hstep, hmark⟩ := h
  obtain ⟨chunk, rest, hwritten, -, hpassed⟩ := exists_written_of_reaches hs he hbefore hmark
  have hindex : c.place.index = before.place.index + 2 := by
    have hwidth : chunk.length = 2 := hwritten.width_eq.symm
    rw [hstep.place_eq hmark, hpassed, Cursor.index, List.length_append, List.length_reverse,
      hwidth, Nat.add_comm]
    rfl
  have hsides := hstep.index_le_or_le hbefore hreach
  omega

theorem reads_iff_of_isDigit {d : Char} {rest : List Char} (ha : c.place.ahead = d :: rest)
    (hd : d.isDigit) :
    (∀ negative, c.Reads s (.scaling negative (Numeral.scan c.place.ahead)) ↔
      pendingSign? s c.place.passed = some negative) ∧
    (c.Reads s (.numeral (Numeral.scan c.place.ahead)) ↔
      pendingSign? s c.place.passed = none) := by
  obtain ⟨⟨passed, ahead⟩, operandExpected, w⟩ := c
  obtain rfl : ahead = d :: rest := ha
  simp only [Reads, Lexeme.read_of_isDigit hd, Lexeme.readNumeral]
  cases pendingSign? s passed <;> simp

end Configuration

open InfixCalculator.Configuration (Reaches Step BehindMark initial)

/-- Where all symbols are written out, a numeral that the loop comes to is read as an exponent
exactly if the step before has passed an exponent mark together with a sign, which is then the sign
of the exponent; in every other place it is an operand. So the sign of an exponent is no piece of
its own, and no numeral behind an operator is an exponent. -/
theorem exponents_follow_marks {s : Settings} {e : String} {x? : Option Float} {log : Log}
    {c : Configuration} {d : Char} {rest : List Char} (hs : s.HasDefaultMarkers)
    (he : (Reading.ofText s e.toList).IsSpelledOut) (h : Reaches s x? (initial e.toList log) c)
    (ha : c.place.ahead = d :: rest) (hd : d.isDigit) :
    (∀ negative, c.Reads s (.scaling negative (Numeral.scan c.place.ahead)) ↔
      ∃ sign, BehindMark s x? (initial e.toList log) c sign ∧ negative = (sign == '-')) ∧
    (c.Reads s (.numeral (Numeral.scan c.place.ahead)) ↔
      ∀ sign, ¬ BehindMark s x? (initial e.toList log) c sign) ∧
    (∀ sign, BehindMark s x? (initial e.toList log) c sign →
      ∀ c', Reaches s x? (initial e.toList log) c' → c'.place.index + 1 ≠ c.place.index) ∧
    ∀ before t operandExpected, Reaches s x? (initial e.toList log) before →
      Step s x? before c → before.Reads s (.token t operandExpected) →
      c.Reads s (.numeral (Numeral.scan c.place.ahead)) := by
  obtain ⟨hscaling, hnumeral⟩ := Configuration.reads_iff_of_isDigit (s := s) ha hd
  have hmark := Configuration.pendingSign?_iff_behindMark hs he h
  refine ⟨fun negative => (hscaling negative).trans (hmark negative), ?_, ?_, ?_⟩
  · rw [hnumeral, Option.eq_none_iff_forall_not_mem]
    constructor
    · intro hnone sign hbehind
      exact hnone _ ((hmark _).mpr ⟨sign, hbehind, rfl⟩)
    · intro hnone negative hp
      obtain ⟨sign, hbehind, -⟩ := (hmark negative).mp hp
      exact hnone sign hbehind
  · intro sign hbehind c' hreach
    exact hbehind.index_ne hs he hreach
  · intro before t operandExpected hreach hstep htoken
    exact hnumeral.mpr (hstep.pendingSign?_eq hs he hreach htoken)

/-- Behind the variable, a mark and its sign, the two is an exponent. -/
theorem exponents_follow_marks_behind_variable :
    Settings.HasDefaultMarkers {} ∧ (Reading.ofText {} "xE-2".toList).IsSpelledOut ∧
      ∃ c : Configuration, Reaches {} (some 0) (initial "xE-2".toList #[]) c ∧
        c.place.ahead = ['2'] ∧ c.Reads {} (.scaling true ⟨['2'], none⟩) := by
  have hs : Settings.HasDefaultMarkers {} := ⟨rfl, rfl⟩
  have he : (Reading.ofText {} "xE-2".toList).IsSpelledOut := by decide
  let start := initial "xE-2".toList #[]
  let behindVariable : Configuration := ⟨start.place.advance 1, false, { operands := [0] }⟩
  let behindMark : Configuration := ⟨behindVariable.place.advance 2, false, { operands := [0] }⟩
  have hfirst : Step {} (some 0) start behindVariable :=
    Step.intro (c := start) (l := .variableMark) rfl rfl
  have hsecond : Step {} (some 0) behindVariable behindMark :=
    Step.intro (c := behindVariable) (l := .exponentMark (some '-')) rfl rfl
  have hreach : Reaches {} (some 0) start behindMark := .tail (.single hfirst) hsecond
  have hmark : BehindMark {} (some 0) start behindMark '-' :=
    ⟨behindVariable, .single hfirst, hsecond, rfl⟩
  refine ⟨hs, he, behindMark, hreach, rfl, ?_⟩
  exact ((exponents_follow_marks hs he hreach rfl rfl).1 true).mpr ⟨'-', hmark, rfl⟩

/-- A name that is not written out can pass the mark, and the operand of the addition behind it is
then taken as an exponent. -/
example : (Reading.ofText {} "siE+5".toList).lexemes =
    [.token (.unary .sin) true, .token (.binary .add) true, .scaling false ⟨['5'], none⟩] := by
  decide

end InfixCalculator
