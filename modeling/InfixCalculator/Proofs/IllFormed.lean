import InfixCalculator.Proofs.Brackets.Agreement
import InfixCalculator.Proofs.Grammar.Recognition
import InfixCalculator.Proofs.Postfix.Missing

/-! What becomes of texts that are accepted without being well formed. An operator without its
operands makes no number, and operands without an operator are reported. What is left are texts
whose operators find their operands elsewhere: operands without an operator between them may belong
to one further on, and brackets with nothing between them or an exponent mark without an exponent
mean nothing. -/

namespace InfixCalculator
open Placement (Abuts strayMark)
open Calculation (countRecords drops)

/-- Whether a text is accepted and given a number without a warning though it is not well formed. -/
def Unnoticed (e : String) (x : Float) : Prop :=
  Acceptance.accepts 255 e ∧ (Reading.ofText {} e.toList).IsSpelledOut ∧
    ¬ IsWellFormed e.toList ∧ ∃ v, evaluate {} e (some x) #[] = .ok v #[] ∧ v.isNaN = false

/-- A program that leaves one operand and no bracket has that operand as its value. -/
theorem evaluate_eq_of_program_run {s : Settings} {e : String} {x v : Float} (he : e ≠ "")
    (hrun : (Reading.ofText s e.toList).program.run x = .ok [v])
    (hd : drops (Postfix.convert [] (Reading.ofText s e.toList).lexemes).2 = []) :
    evaluate s e (some x) #[] = .ok v #[] := by
  rw [evaluate_of_ne he, Calculation.logged, Calculation.run_of_program_ok #[] hrun, hd]
  rfl

/-- An operator behind both of its operands, brackets with nothing between them, an exponent mark
without an exponent, and a power without a base: no check looks for any of them. -/
theorem unnoticed_operands_brackets_mark_power :
    Unnoticed "((x)(x)+)" 1 ∧ Unnoticed "()1" 1 ∧ Unnoticed "(xE)" 1 ∧ Unnoticed "^(x)" 0 := by
  have hoperands : evaluate {} "((x)(x)+)" (some 1) #[] = .ok (1 + 1) #[] :=
    evaluate_eq_of_program_run (by decide) rfl (by decide)
  let one : Numeral := ⟨['1'], none⟩
  have hbrackets : evaluate {} "()1" (some 1) #[] = .ok (one.value?.getD Number.nan) #[] :=
    evaluate_eq_of_program_run (by decide) rfl (by decide)
  have hmark : evaluate {} "(xE)" (some 1) #[] = .ok 1 #[] :=
    evaluate_eq_of_program_run (by decide) rfl (by decide)
  have hpower : evaluate {} "^(x)" (some 0) #[] = .ok (power Number.nan 0) #[] :=
    evaluate_eq_of_program_run (by decide) rfl (by decide)
  exact ⟨⟨by decide, by decide, by decide, _, hoperands, rfl⟩,
    ⟨by decide, by decide, by decide, _, hbrackets, by decide +kernel⟩,
    ⟨by decide, by decide, by decide, _, hmark, rfl⟩,
    ⟨by decide, by decide, by decide, _, hpower, rfl⟩⟩

theorem Acceptance.ne_empty_of_accepts {maxLength : Int} {e : String} (h : accepts maxLength e) :
    e ≠ "" := by
  rintro rfl
  cases h

theorem Acceptance.bracketsMatch_of_accepts {maxLength : Int} {e : String}
    (h : accepts maxLength e) : bracketsMatch e := by
  simp only [accepts, Bool.and_eq_true] at h
  exact h.1.2

/-- Where all brackets match, none is on the stack at the end of the reading. -/
theorem drops_eq_nil_of_evaluate_eq_ok {s : Settings} {e : String} {x v : Float} {log : Log}
    {ts : List Token} {stack : List Float} (hs : s.HasDefaultMarkers)
    (he : (Reading.ofText s e.toList).IsSpelledOut) (hm : Acceptance.bracketsMatch e)
    (hv : evaluate s e (some x) log =
      .ok v (log ++ (drops ts ++ countRecords stack).toArray)) : drops ts = [] := by
  have hlog := @evaluate_log s (some x) log 0 e hs he (Brackets.closes_iff.mp hm)
  rw [hv] at hlog
  obtain ⟨warnings, hw, hlog⟩ := hlog
  have hrecords : drops ts ++ countRecords stack = warnings := by
    simpa using congrArg Array.toList hlog
  refine List.eq_nil_iff_forall_not_mem.mpr fun r hr => ?_
  obtain ⟨t, -, rfl⟩ := List.mem_map.mp hr
  exact hw t (hrecords ▸ List.mem_append_left _ hr)

/-- The value of a text that is accepted but not well formed is no number or comes with a warning,
unless all operators find their operands and leave one. Then an operand begins directly behind a
numeral, the variable or a closing bracket, or an exponent mark has no exponent, and the value is
that of the tree that the operators make. Powers of missing operands with the exponent zero are left
open. -/
theorem evaluate_of_not_isWellFormed {s : Settings} {e : String} {maxLength : Int} {x v : Float}
    {log log' : Log} (hs : s.HasDefaultMarkers) (ha : Acceptance.accepts maxLength e)
    (he : (Reading.ofText s e.toList).IsSpelledOut) (hn : ¬ IsWellFormed e.toList)
    (hv : evaluate s e (some x) log = .ok v log') :
    v.isNaN ∨
    (∃ n, n ≠ 1 ∧ log' = log.push (.operandCount n)) ∨
    ((Abuts (Reading.ofText s e.toList).lexemes ∨
        strayMark (Reading.ofText s e.toList).lexemes) ∧
      log' = log ∧
      ∃ t, Postfix.build (Program.ofExpression s e).word [] = some [t] ∧ t.value x = .ok v) ∨
    Postfix.PowerOfMissing x (Program.ofExpression s e).word := by
  have hm := Acceptance.bracketsMatch_of_accepts ha
  obtain ⟨stack, hf, hrun, hvalue, hlog⟩ :=
    exists_stack_of_evaluate_eq_ok (Acceptance.ne_empty_of_accepts ha) hv
  have hword : (Program.ofExpression s e).word =
      Postfix.word (Reading.ofText s e.toList).lexemes := by
    simp [Program.ofExpression, Reading.program, hf]
  have hdrops := drops_eq_nil_of_evaluate_eq_ok hs he hm (hlog ▸ hv)
  rw [hdrops, List.nil_append, countRecords] at hlog
  rw [hword]
  by_cases hlen : stack.length = 1
  · obtain ⟨v', rfl⟩ := List.length_eq_one_iff.mp hlen
    cases hvalue
    cases hb : Postfix.build (Postfix.word (Reading.ofText s e.toList).lexemes) [] with
    | none =>
      rcases Postfix.run_of_missing hb hrun with ⟨above, hbottom⟩ | hpower
      · have hnan : v' = Number.nan := by
          have hlast := congrArg List.getLast? hbottom
          simpa using hlast
        rw [List.headD_cons, hnan]
        exact .inl rfl
      · exact .inr (.inr (.inr hpower))
    | some ts =>
      have hnil : Postfix.Holds x [] [] := rfl
      have hholds := Postfix.run_of_build hb hnil hrun
      obtain ⟨t, rfl⟩ := List.length_eq_one_iff.mp hholds.length_eq.symm
      obtain ⟨_, _, hcons, ht, -⟩ := hholds.of_cons
      cases hcons
      refine .inr (.inr (.inl ⟨?_, by simpa using hlog, t, rfl, ht⟩))
      -- with everything in its place the text would be well formed
      cases hstray : strayMark (Reading.ofText s e.toList).lexemes with
      | true => exact .inr rfl
      | false =>
        cases hcrowded : Placement.crowded true (Reading.ofText s e.toList).lexemes with
        | true => exact .inl (Placement.abuts_of_crowded hcrowded hstray)
        | false =>
          have hfits := Placement.fits_of_build hcrowded hstray hb
          exact absurd ((isWellFormed_iff hs).mpr ⟨⟨hf, he, hfits⟩, Brackets.closes_iff.mp hm⟩) hn
  · rw [if_neg hlen] at hlog
    exact .inr (.inl ⟨stack.length, hlen, by simpa using hlog⟩)

/-- The sum behind its operands is calculated as if it stood between them. -/
theorem evaluate_operator_behind_operands :
    evaluate {} "((x)(x)+)" (some 1) #[] = .ok (1 + 1) #[] ∧
    ∃ t, Postfix.build (Program.ofExpression {} "((x)(x)+)").word [] = some [t] ∧
      t.value 1 = .ok (1 + 1) := by
  have hok : evaluate {} "((x)(x)+)" (some 1) #[] = .ok (1 + 1) #[] :=
    evaluate_eq_of_program_run (by decide) rfl (by decide)
  have haccepts : Acceptance.accepts 255 "((x)(x)+)" := by decide
  refine ⟨hok, ?_⟩
  rcases evaluate_of_not_isWellFormed ⟨rfl, rfl⟩ haccepts (by decide) (by decide) hok with
    hnan | ⟨n, -, hlog⟩ | ⟨-, -, htree⟩ | ⟨before, after, right, hword, -⟩
  · cases hnan
  · cases congrArg Array.size hlog
  · exact htree
  · have hmem : .binary .pow ∈ (Program.ofExpression {} "((x)(x)+)").word := by
      rw [hword]
      simp
    exact absurd hmem (by decide)

end InfixCalculator
