import InfixCalculator.Placement
import InfixCalculator.Proofs.Postfix.Tree

/-! Pieces in their place, in rows that can be put together, and the operands that rows out of place
leave to their operators. Without a crowd every gap takes an operand away from an operator, so a
row whose operators all find their operands has none. -/

namespace InfixCalculator.Placement

variable {a b c : Bool} {l : Lexeme} {ls ls' : List Lexeme}

theorem expects_append (a : Bool) (ls ls' : List Lexeme) :
    expects a (ls ++ ls') = expects (expects a ls) ls' := by
  induction ls generalizing a with
  | nil => rfl
  | cons l rest ih => exact ih _

theorem crowded_append (a : Bool) (ls ls' : List Lexeme) :
    crowded a (ls ++ ls') = (crowded a ls || crowded (expects a ls) ls') := by
  induction ls generalizing a with
  | nil => rfl
  | cons l rest ih => rw [List.cons_append, crowded, ih, crowded, Bool.or_assoc]; rfl

theorem gapped_append (a : Bool) (ls ls' : List Lexeme) :
    gapped a (ls ++ ls') = (gapped a ls || gapped (expects a ls) ls') := by
  induction ls generalizing a with
  | nil => rfl
  | cons l rest ih => rw [List.cons_append, gapped, ih, gapped, Bool.or_assoc]; rfl

theorem strayMark_of_cons (h : strayMark (l :: ls) = false) : strayMark ls = false := by
  cases l with
  | exponentMark _ => exact (Bool.or_eq_false_iff.mp h).2
  | numeral _ | scaling _ _ | variableMark | token _ _ => exact h

/-- Behind an exponent mark comes an exponent. -/
theorem exists_scaling_of_exponentMark {sign : Option Char}
    (h : strayMark (.exponentMark sign :: ls) = false) :
    ∃ negative n rest, ls = .scaling negative n :: rest := by
  have hnext := (Bool.or_eq_false_iff.mp h).1
  cases ls with
  | nil => cases hnext
  | cons next rest =>
    cases next with
    | scaling negative n => exact ⟨negative, n, rest, rfl⟩
    | numeral _ | variableMark | exponentMark _ | token _ _ => cases hnext

theorem strayMark_append (h : strayMark ls = false) (ls' : List Lexeme) :
    strayMark (ls ++ ls') = strayMark ls' := by
  induction ls with
  | nil => rfl
  | cons l rest ih =>
    have happend := ih (strayMark_of_cons h)
    cases l with
    | exponentMark sign =>
      obtain ⟨negative, n, tail, rfl⟩ := exists_scaling_of_exponentMark h
      rw [List.cons_append, strayMark, happend]
      rfl
    | numeral _ | scaling _ _ | variableMark | token _ _ => exact happend

theorem Fits.append (h : Fits a b ls) (h' : Fits b c ls') : Fits a c (ls ++ ls') where
  not_crowded := by rw [crowded_append, h.not_crowded, h.expects_eq, h'.not_crowded]; rfl
  not_gapped := by rw [gapped_append, h.not_gapped, h.expects_eq, h'.not_gapped]; rfl
  not_strayMark := by rw [strayMark_append h.not_strayMark, h'.not_strayMark]
  expects_eq := by rw [expects_append, h.expects_eq, h'.expects_eq]

/-- The first piece of a row is in its place, and the others are behind it. -/
theorem Fits.of_cons (h : Fits a c (l :: ls)) :
    l.beginsOperand = a ∧ Fits (l.expectsOperand a) c ls := by
  obtain ⟨hc, hg, hs, he⟩ := h
  rw [crowded, Bool.or_eq_false_iff] at hc
  rw [gapped, Bool.or_eq_false_iff] at hg
  refine ⟨?_, hc.2, hg.2, strayMark_of_cons hs, he⟩
  cases a with
  | true => simpa using hg.1
  | false => simpa using hc.1

/-! ## Operands side by side -/

theorem Abuts.cons (h : Abuts ls) (l : Lexeme) : Abuts (l :: ls) := by
  obtain ⟨front, last, next, rest, rfl, hlast, hnext⟩ := h
  exact ⟨l :: front, last, next, rest, rfl, hlast, hnext⟩

/-- A crowd begins behind what ends an operand, unless it is there from the start. -/
theorem abuts_or_of_crowded (hc : crowded a ls = true) (hs : strayMark ls = false) :
    Abuts ls ∨ a = false ∧ ∃ next ∈ ls.head?, next.beginsOperand := by
  induction ls generalizing a with
  | nil => cases hc
  | cons l rest ih =>
    rcases Bool.or_eq_true_iff.mp hc with hfirst | hcrowded
    · obtain ⟨hbegins, hnot⟩ := Bool.and_eq_true_iff.mp hfirst
      exact .inr ⟨by simpa using hnot, l, rfl, hbegins⟩
    · rcases ih hcrowded (strayMark_of_cons hs) with habuts | ⟨hexpects, next, hnext, hbegins⟩
      · exact .inl (habuts.cons l)
      · obtain ⟨tail, rfl⟩ := List.head?_eq_some_iff.mp hnext
        -- the piece in front of the crowd expects no operand behind it
        have hadjacent (hends : l.endsOperand) : Abuts (l :: next :: tail) :=
          ⟨[], l, next, tail, rfl, hends, hbegins⟩
        cases l with
        | numeral _ | scaling _ _ | variableMark => exact .inl (hadjacent rfl)
        | exponentMark sign =>
          -- the exponent that goes behind the mark begins no operand
          obtain ⟨negative, n, more, hscaling⟩ := exists_scaling_of_exponentMark hs
          rw [(List.cons.inj hscaling).1] at hbegins
          cases hbegins
        | token t _ =>
          cases t with
          | closeBracket => exact .inl (hadjacent rfl)
          | openBracket | unary _ | binary _ => cases hexpects

theorem abuts_of_crowded (hc : crowded true ls = true) (hs : strayMark ls = false) : Abuts ls :=
  (abuts_or_of_crowded hc hs).resolve_right nofun

/-! ## Operands and operators that join them -/

/-- How many operands the pieces put on the stack. -/
def pushes (ls : List Lexeme) : Nat :=
  (ls.filterMap Instruction.ofOperand?).countP Instruction.isPush

/-- How many operators the pieces have that make one operand of two. -/
def joins (ls : List Lexeme) : Nat :=
  (ls.filterMap Instruction.ofOperator?).countP Instruction.isJoin

theorem pushes_word (ls : List Lexeme) :
    (Postfix.word ls).countP Instruction.isPush = pushes ls := by
  have hpush : ∀ i : Instruction, i.isPush = (i.isPush && i.isOperand) := by
    intro i
    cases i <;> rfl
  rw [pushes, ← (Postfix.rearranges_word ls).operands, List.countP_filter, ← funext hpush]

theorem joins_word (ls : List Lexeme) :
    (Postfix.word ls).countP Instruction.isJoin = joins ls := by
  have hjoin : ∀ i : Instruction, i.isJoin = (i.isJoin && !i.isOperand) := by
    intro i
    cases i <;> rfl
  rw [joins, ← (Postfix.rearranges_word ls).operators.countP_eq, List.countP_filter,
    ← funext hjoin]

theorem pushes_cons (l : Lexeme) (ls : List Lexeme) :
    pushes (l :: ls) = pushes [l] + pushes ls := by
  rw [← List.singleton_append, pushes, List.filterMap_append, List.countP_append]
  rfl

theorem joins_cons (l : Lexeme) (ls : List Lexeme) :
    joins (l :: ls) = joins [l] + joins ls := by
  rw [← List.singleton_append, joins, List.filterMap_append, List.countP_append]
  rfl

/-- A piece that meets a gap in front of it may find one operand less. -/
theorem add_toNat_or_le {m n : Nat} (a : Bool) {b : Bool} (h : m + b.toNat ≤ n) :
    m + (a || b).toNat ≤ n + a.toNat := by
  cases a with
  | true => simp only [Bool.true_or, Bool.toNat_true]; omega
  | false => exact h

/-- Where nothing is crowded, a gap leaves one operand too few. -/
theorem pushes_le (hc : crowded a ls = false) (hs : strayMark ls = false) :
    pushes ls + (gapped a ls || expects a ls).toNat ≤ joins ls + a.toNat := by
  induction ls generalizing a with
  | nil => exact Nat.le_refl _
  | cons l rest ih =>
    obtain ⟨hfirst, hrest⟩ := Bool.or_eq_false_iff.mp hc
    have hstray := strayMark_of_cons hs
    rw [pushes_cons, joins_cons]
    cases l with
    | numeral _ | variableMark =>
      -- an operand stands where one is expected, and takes up the expectation
      have ha : a = true := by simpa [Lexeme.beginsOperand] using hfirst
      subst ha
      have hle : pushes rest + (gapped false rest || expects false rest).toNat ≤ joins rest + 0 :=
        ih hrest hstray
      show 1 + pushes rest + (gapped false rest || expects false rest).toNat ≤ 0 + joins rest + 1
      omega
    | scaling _ _ =>
      have hle : pushes rest + (gapped false rest || expects false rest).toNat ≤ joins rest + 0 :=
        ih hrest hstray
      show 0 + pushes rest + ((a || gapped false rest) || expects false rest).toNat ≤
        0 + joins rest + a.toNat
      have hgap := add_toNat_or_le a hle
      rw [Bool.or_assoc]
      omega
    | exponentMark sign =>
      have hle : pushes rest + (gapped a rest || expects a rest).toNat ≤ joins rest + a.toNat :=
        ih hrest hstray
      show 0 + pushes rest + ((a || gapped a rest) || expects a rest).toNat ≤
        0 + joins rest + a.toNat
      cases a with
      | true =>
        -- the exponent behind the mark finds the same gap
        have hgap : gapped true rest = true := by
          obtain ⟨negative, n, tail, rfl⟩ := exists_scaling_of_exponentMark hs
          rfl
        simp only [hgap, Bool.true_or, Bool.toNat_true] at hle ⊢
        omega
      | false => simp only [Bool.false_or] at hle ⊢; omega
    | token t operandExpected =>
      cases t with
      | openBracket | unary _ =>
        have ha : a = true := by simpa [Lexeme.beginsOperand] using hfirst
        subst ha
        have hle : pushes rest + (gapped true rest || expects true rest).toNat ≤ joins rest + 1 :=
          ih hrest hstray
        show 0 + pushes rest + (gapped true rest || expects true rest).toNat ≤ 0 + joins rest + 1
        omega
      | binary _ =>
        have hle : pushes rest + (gapped true rest || expects true rest).toNat ≤ joins rest + 1 :=
          ih hrest hstray
        show 0 + pushes rest + ((a || gapped true rest) || expects true rest).toNat ≤
          1 + joins rest + a.toNat
        have hgap := add_toNat_or_le a hle
        rw [Bool.or_assoc]
        omega
      | closeBracket =>
        have hle : pushes rest + (gapped false rest || expects false rest).toNat ≤
          joins rest + 0 := ih hrest hstray
        show 0 + pushes rest + ((a || gapped false rest) || expects false rest).toNat ≤
          0 + joins rest + a.toNat
        have hgap := add_toNat_or_le a hle
        rw [Bool.or_assoc]
        omega

/-- If all operators find their operands and make one tree of them, nothing but a crowd or a stray
exponent mark can be out of place. -/
theorem fits_of_build {t : Tree} (hc : crowded true ls = false) (hs : strayMark ls = false)
    (hb : Postfix.build (Postfix.word ls) [] = some [t]) : Fits true false ls := by
  have hle := pushes_le hc hs
  have hlen := Postfix.length_build hb
  rw [pushes_word, joins_word] at hlen
  have hnone : (gapped true ls || expects true ls).toNat = 0 := by
    simp only [List.length_cons, List.length_nil, Bool.toNat_true] at hlen hle
    omega
  obtain ⟨hg, he⟩ := Bool.or_eq_false_iff.mp (Bool.toNat_eq_zero.mp hnone)
  exact ⟨hc, hg, hs, he⟩

end InfixCalculator.Placement
