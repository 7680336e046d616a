import Mathlib.Data.List.Forall2
import Mathlib.Data.List.Infix
import InfixCalculator.Marker
import InfixCalculator.Proofs.Lexeme
import InfixCalculator.Proofs.Result
import InfixCalculator.Sampling

/-! Marks are only names. With other characters for the variable and the exponent mark, in the text
and in the settings alike, the same pieces are read, and so the same comes of them. -/

namespace InfixCalculator

/-! ## Characters -/

namespace Token

theorem mem_symbol_of_single? {c : Char} {t : Token} (h : single? c = some t) :
    c ∈ t.symbol.toList := by
  unfold single? at h
  split at h <;> cases h <;> decide

theorem mem_symbol_of_named? {c next : Char} {t : Token} (h : named? c (some next) = some t) :
    c ∈ t.symbol.toList ∧ next ∈ t.symbol.toList := by
  unfold named? at h
  split at h <;> cases h <;> rename_i hnext <;> cases hnext <;> decide

theorem mem_all (t : Token) : t ∈ all := by
  cases t with
  | binary op | unary op => cases op <;> decide
  | openBracket | closeBracket => decide

end Token

theorem canMark_iff {c : Char} : CanMark c ↔
    c.isDigit = false ∧ c ≠ '.' ∧ ∀ t ∈ Token.all, c ∉ t.letters := by
  constructor
  · rintro ⟨hd, hp, hs⟩
    exact ⟨hd, hp, fun t _ => t.symbol_toList ▸ hs t⟩
  · rintro ⟨hd, hp, hs⟩
    exact ⟨hd, hp, fun t => t.symbol_toList ▸ hs t t.mem_all⟩

instance (c : Char) : Decidable (CanMark c) := decidable_of_iff' _ canMark_iff

namespace CanMark

variable {c : Char} (hc : CanMark c)
include hc

theorem isSign : isSign c = false := by
  have hadd := hc.not_mem_symbol (.binary .add)
  have hsub := hc.not_mem_symbol (.binary .sub)
  simp_all [InfixCalculator.isSign, Token.symbol, BinaryOp.symbol]

/-- No symbol starts with the character. -/
theorem startingWith? (operandExpected : Bool) (next : Option Char) :
    Token.startingWith? operandExpected c next = none := by
  have hminus : c ≠ '-' := by
    rintro rfl
    exact absurd hc.isSign (by decide)
  have hsingle : Token.single? c = none :=
    Option.eq_none_iff_forall_ne_some.mpr fun t ht =>
      hc.not_mem_symbol t (Token.mem_symbol_of_single? ht)
  have hnamed : Token.named? c next = none := by
    cases next with
    | none => simp [Token.named?]
    | some next =>
      exact Option.eq_none_iff_forall_ne_some.mpr fun t ht =>
        hc.not_mem_symbol t (Token.mem_symbol_of_named? ht).1
  simp [Token.startingWith?, hminus, hsingle, hnamed]

/-- No name goes on with the character. -/
theorem named? (first : Char) : Token.named? first (some c) = none :=
  Option.eq_none_iff_forall_ne_some.mpr fun t ht =>
    hc.not_mem_symbol t (Token.mem_symbol_of_named? ht).2

end CanMark

theorem canMark_x : CanMark 'x' := by decide

theorem canMark_E : CanMark 'E' := by decide

/-! ## Reading -/

/-- Whether `c'` is to `s'` what `c` is to `s`: the same mark, or the same character that is none. -/
structure Renames (s s' : Settings) (c c' : Char) : Prop where
  isVariable : s'.isVariable c' = s.isVariable c
  isExponent : s'.isExponent c' = s.isExponent c
  same : c' = c ∨ CanMark c ∧ CanMark c' ∧ (s.isVariable c ∨ s.isExponent c)

namespace Renames

variable {s s' : Settings} {c c' : Char} (h : Renames s s' c c')
include h

theorem isDigit : c'.isDigit = c.isDigit := by
  rcases h.same with rfl | ⟨hc, hc', -⟩
  · rfl
  · rw [hc.isDigit, hc'.isDigit]

theorem eq_point_iff : c' = '.' ↔ c = '.' := by
  rcases h.same with rfl | ⟨hc, hc', -⟩
  · rfl
  · exact iff_of_false hc'.ne_point hc.ne_point

theorem isSign : isSign c' = isSign c := by
  rcases h.same with rfl | ⟨hc, hc', -⟩
  · rfl
  · rw [hc.isSign, hc'.isSign]

theorem eq_of_isDigit (hd : c.isDigit) : c' = c := by
  rcases h.same with rfl | ⟨hc, -, -⟩
  · rfl
  · rw [hc.isDigit] at hd
    cases hd

theorem eq_of_isSign (hsign : InfixCalculator.isSign c) : c' = c := by
  rcases h.same with rfl | ⟨hc, -, -⟩
  · rfl
  · rw [hc.isSign] at hsign
    cases hsign

end Renames

/-- Texts of the same marks and of the same other characters. -/
abbrev Renamed (s s' : Settings) : List Char → List Char → Prop := List.Forall₂ (Renames s s')

namespace Renamed

variable {s s' : Settings} {operandExpected : Bool} {passed passed' text text' : List Char}

theorem takeWhile_isDigit (h : Renamed s s' text text') :
    text'.takeWhile Char.isDigit = text.takeWhile Char.isDigit ∧
      Renamed s s' (text.dropWhile Char.isDigit) (text'.dropWhile Char.isDigit) := by
  induction h with
  | nil => exact ⟨rfl, .nil⟩
  | @cons c c' rest rest' hc hrest ih =>
    rw [List.takeWhile_cons, List.takeWhile_cons, List.dropWhile_cons, List.dropWhile_cons,
      hc.isDigit]
    by_cases hd : c.isDigit
    · simp only [hd, if_true]
      exact ⟨by rw [hc.eq_of_isDigit hd, ih.1], ih.2⟩
    · simp only [hd]
      exact ⟨rfl, .cons hc hrest⟩

theorem scan (h : Renamed s s' text text') : Numeral.scan text' = Numeral.scan text := by
  obtain ⟨htake, hdrop⟩ := h.takeWhile_isDigit
  rw [Numeral.scan, Numeral.scan, htake]
  generalize text.dropWhile Char.isDigit = behind at hdrop ⊢
  generalize text'.dropWhile Char.isDigit = behind' at hdrop ⊢
  cases hdrop with
  | nil => rfl
  | @cons c c' rest rest' hc hrest =>
    by_cases hp : c = '.'
    · rw [hp, hc.eq_point_iff.mpr hp]
      simp only [(takeWhile_isDigit hrest).1]
    · have hp' := mt hc.eq_point_iff.mp hp
      simp [hp, hp']

theorem pendingSign? (h : Renamed s s' passed passed') :
    Lexeme.pendingSign? s' passed' = Lexeme.pendingSign? s passed := by
  cases h with
  | nil => rfl
  | @cons c c' _ _ hc hrest =>
    cases hrest with
    | nil => rfl
    | cons hmark _ =>
      rw [Lexeme.pendingSign?, Lexeme.pendingSign?, hc.isSign, hmark.isExponent]
      by_cases hsign : isSign c
      · rw [hc.eq_of_isSign hsign]
      · simp [hsign]

theorem filter_isSign (h : Renamed s s' text text') :
    text'.head?.filter isSign = text.head?.filter isSign := by
  cases h with
  | nil => rfl
  | @cons c c' _ _ hc _ =>
    rw [List.head?_cons, List.head?_cons, Option.filter_some, Option.filter_some, hc.isSign]
    by_cases hsign : isSign c
    · rw [hc.eq_of_isSign hsign]
    · simp [hsign]

theorem startingWith? (h : Renamed s s' text text') (c : Char) :
    Token.startingWith? operandExpected c text'.head? =
      Token.startingWith? operandExpected c text.head? := by
  cases h with
  | nil => rfl
  | cons hnext _ =>
    rcases hnext.same with rfl | ⟨hc, hc', -⟩
    · rfl
    · simp [Token.startingWith?, hc.named?, hc'.named?]

/-- The same piece is read, or the same character cannot be. -/
theorem read (operandExpected : Bool) (hpassed : Renamed s s' passed passed')
    (h : Renamed s s' text text') :
    Lexeme.read s' operandExpected ⟨passed', text'⟩ =
      Lexeme.read s operandExpected ⟨passed, text⟩ := by
  have hpending := hpassed.pendingSign?
  have hscan := h.scan
  cases h with
  | nil => rfl
  | @cons c c' rest rest' hc hrest =>
    simp only [Lexeme.read, hc.isDigit, hc.isVariable, hc.isExponent]
    split
    · rw [Lexeme.readNumeral, Lexeme.readNumeral]
      simp only [hpending, hscan]
    · split
      · rfl
      · split
        · rw [filter_isSign hrest]
        · rename_i hx hE
          obtain rfl : c' = c := by
            rcases hc.same with hsame | ⟨-, -, hmark⟩
            · exact hsame
            · exact absurd hmark (by simp [hx, hE])
          simp only [Token.read, startingWith? hrest, Cursor.index, hpassed.length_eq]

/-- The same pieces are read, up to the same end. -/
theorem ahead (operandExpected : Bool) (hpassed : Renamed s s' passed passed')
    (h : Renamed s s' text text') (skip : Nat) :
    (Reading.ahead s' skip operandExpected passed' text').lexemes =
        (Reading.ahead s skip operandExpected passed text).lexemes ∧
      (Reading.ahead s' skip operandExpected passed' text').fault =
        (Reading.ahead s skip operandExpected passed text).fault := by
  induction h generalizing skip operandExpected passed passed' with
  | nil => exact ⟨rfl, rfl⟩
  | @cons c c' rest rest' hc hrest ih =>
    cases skip with
    | succ skip =>
      rw [Reading.ahead_succ, Reading.ahead_succ]
      exact ih operandExpected (.cons hc hpassed) skip
    | zero =>
      have hread := hpassed.read operandExpected (.cons hc hrest)
      cases hl : Lexeme.read s operandExpected ⟨passed, c :: rest⟩ with
      | error failure =>
        rw [Reading.ahead_of_error hl, Reading.ahead_of_error (hread.trans hl)]
        exact ⟨rfl, rfl⟩
      | ok l =>
        rw [Reading.ahead_of_ok hl, Reading.ahead_of_ok (hread.trans hl)]
        obtain ⟨hlexemes, hfault⟩ :=
          ih (l.expectsOperand operandExpected) (.cons hc hpassed) (l.width - 1)
        exact ⟨congrArg (l :: ·) hlexemes, hfault⟩

end Renamed

/-! ## The whole of a calculation -/

variable {s s' : Settings} {e e' : String}

/-- Expressions of the same marks and the same other characters come to the same. -/
theorem evaluate_of_renamed (h : Renamed s s' e.toList e'.toList) (x : Float) :
    evaluate s' e' (some x) = evaluate s e (some x) := by
  obtain ⟨hlexemes, hfault⟩ := Renamed.ahead true .nil h 0
  by_cases he : e = ""
  · have he' : e' = "" := by
      have hlen := h.length_eq
      rw [he] at hlen
      exact String.toList_eq_nil_iff.mp (List.eq_nil_of_length_eq_zero hlen.symm)
    rw [he, he']
    rfl
  · have he' : e' ≠ "" := by
      rintro rfl
      exact he (String.toList_eq_nil_iff.mp (List.eq_nil_of_length_eq_zero h.length_eq))
    rw [evaluate_eq_outcome he, evaluate_eq_outcome he']
    funext log
    show (Reading.ahead s' 0 true [] e'.toList).outcome x log =
      (Reading.ahead s 0 true [] e.toList).outcome x log
    rw [Reading.outcome, Reading.outcome, hlexemes, hfault]

section
variable {v m : Char} (hs : s.HasDefaultMarkers) (hv : CanMark v) (hm : CanMark m) (hne : v ≠ m)
include hs hv hm hne

theorem renames_mark {c : Char} (hcv : c = v → v = 'x') (hcm : c = m → m = 'E') :
    Renames s (s.withMarks v m) c (mark v m c) := by
  have hvariable (d : Char) : (s.withMarks v m).isVariable d = decide (v = d) := by
    simp [Settings.isVariable, Settings.marks, Settings.withMarks]
  have hexponent (d : Char) : (s.withMarks v m).isExponent d = decide (m = d) := by
    simp [Settings.isExponent, Settings.marks, Settings.withMarks]
  by_cases hx : c = 'x'
  · subst hx
    have hxx : s.isVariable 'x' = true := hs.isVariable_iff.mpr rfl
    have hxE : s.isExponent 'x' = false := hs.isExponent_eq_false (by decide)
    rw [mark, if_pos rfl]
    exact ⟨by simp [hvariable, hxx], by simp [hexponent, hxE, hne.symm],
      .inr ⟨canMark_x, hv, .inl hxx⟩⟩
  · have hnx : s.isVariable c = false := hs.isVariable_eq_false hx
    have hcv' : v ≠ c := by
      rintro rfl
      exact hx (hcv rfl)
    by_cases hE : c = 'E'
    · subst hE
      have hEE : s.isExponent 'E' = true := hs.isExponent_iff.mpr rfl
      rw [mark, if_neg hx, if_pos rfl]
      exact ⟨by simp [hvariable, hnx, hne], by simp [hexponent, hEE],
        .inr ⟨canMark_E, hm, .inr hEE⟩⟩
    · have hnE : s.isExponent c = false := hs.isExponent_eq_false hE
      have hcm' : m ≠ c := by
        rintro rfl
        exact hE (hcm rfl)
      rw [mark, if_neg hx, if_neg hE]
      exact ⟨by simp [hvariable, hnx, hcv'], by simp [hexponent, hnE, hcm'], .inl rfl⟩

theorem renamed_remark {text : List Char} (hvt : v ∈ text → v = 'x') (hmt : m ∈ text → m = 'E') :
    Renamed s (s.withMarks v m) text (remark v m text) := by
  rw [remark, Renamed, List.forall₂_map_right_iff, List.forall₂_same]
  intro c hc
  refine renames_mark hs hv hm hne ?_ ?_
  · rintro rfl
    exact hvt hc
  · rintro rfl
    exact hmt hc

end

theorem containsVariable_remark {v m : Char} (hs : s.HasDefaultMarkers) (hne : v ≠ m)
    (hvt : v ∈ e.toList → v = 'x') :
    Sampling.containsVariable (s.withMarks v m) (String.ofList (remark v m e.toList)) =
      Sampling.containsVariable s e := by
  have hmem : v ∈ remark v m e.toList ↔ 'x' ∈ e.toList := by
    rw [remark, List.mem_map]
    constructor
    · rintro ⟨c, hc, hcv⟩
      unfold mark at hcv
      split at hcv
      · rename_i hx
        exact hx ▸ hc
      · split at hcv
        · exact absurd hcv.symm hne
        · subst hcv
          exact hvt hc ▸ hc
    · exact fun hx => ⟨'x', hx, rfl⟩
  have hmarker : (s.withMarks v m).variableMarker.toList = [v] := String.toList_singleton v
  rw [Bool.eq_iff_iff, Sampling.containsVariable, Sampling.containsVariable, Sampling.occurs_iff,
    Sampling.occurs_iff, hmarker, hs.variableMarker, String.toList_ofList]
  exact (List.singleton_infix_iff _ _).trans (hmem.trans (List.singleton_infix_iff _ _).symm)

/-- Other characters for the marks, in an expression and in the settings, change nothing: not what
an evaluation comes to, and nothing about its values at sample points or the frame of them. -/
theorem evaluate_remark {s : Settings} {v m : Char} {e : String} (hs : s.HasDefaultMarkers)
    (hv : CanMark v) (hm : CanMark m) (hne : v ≠ m) (hvt : v ∈ e.toList → v = 'x')
    (hmt : m ∈ e.toList → m = 'E') :
    (∀ x, evaluate (s.withMarks v m) (String.ofList (remark v m e.toList)) (some x) =
      evaluate s e (some x)) ∧
    Sampling.containsVariable (s.withMarks v m) (String.ofList (remark v m e.toList)) =
      Sampling.containsVariable s e ∧
    ∀ factor xmin xmax,
      Sampling.values (s.withMarks v m) factor (String.ofList (remark v m e.toList)) xmin xmax =
        Sampling.values s factor e xmin xmax ∧
      Sampling.sample (s.withMarks v m) factor (String.ofList (remark v m e.toList)) xmin xmax =
        Sampling.sample s factor e xmin xmax := by
  have hrenamed : Renamed s (s.withMarks v m) e.toList
      (String.ofList (remark v m e.toList)).toList := by
    rw [String.toList_ofList]
    exact renamed_remark hs hv hm hne hvt hmt
  have hevaluate := evaluate_of_renamed hrenamed
  have hcontains := containsVariable_remark (m := m) hs hne hvt
  refine ⟨hevaluate, hcontains, fun factor xmin xmax => ⟨?_, ?_⟩⟩
  · simp only [Sampling.values, hevaluate]
  · simp only [Sampling.sample, hcontains, hevaluate]
    rfl

/-- A name swallows the exponent mark, and the sign behind it makes the numeral an exponent all the
same; a text without the variable is not sampled. -/
theorem evaluate_remark_swallowed :
    CanMark 'y' ∧ CanMark 'z' ∧
      evaluate (({} : Settings).withMarks 'y' 'z') "5moz-0y" (some 3) =
        evaluate {} "5moE-0x" (some 3) ∧
      (evaluate {} "5moE-0x" (some 3)).result #[] = .ok 2 ∧
      Sampling.sample (({} : Settings).withMarks 'y' 'z') 0.5 "5moz-0" 0 1 #[] =
        .error .variableMissing #[] := by
  have hy : CanMark 'y' := by decide
  have hz : CanMark 'z' := by decide
  obtain ⟨hevaluate, -⟩ := @evaluate_remark {} 'y' 'z' "5moE-0x" ⟨rfl, rfl⟩ hy hz (by decide)
    (by decide) (by decide)
  obtain ⟨-, -, hsample⟩ := @evaluate_remark {} 'y' 'z' "5moE-0" ⟨rfl, rfl⟩ hy hz (by decide)
    (by decide) (by decide)
  refine ⟨hy, hz, hevaluate 3, by decide +kernel, (congrFun (hsample 0.5 0 1).2 #[]).trans ?_⟩
  rw [Sampling.sample, if_neg (by decide)]
  rfl

end InfixCalculator
