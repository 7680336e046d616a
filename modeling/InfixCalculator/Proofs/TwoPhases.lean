import InfixCalculator.Program
import InfixCalculator.Proofs.Reduction

/-! A calculation and the program of its text agree. The calculation reads, converts and computes
in one go; the program does the three one after another. Both meet the same first fault, and
without one they leave the same operands, whose number alone decides about the warning. -/

namespace InfixCalculator
open Instruction (ofToken?)
open Calculation (countRecords drops)

/-- Brackets that still wait at the end are opening ones. -/
theorem Calculation.drops_eq_replicate {ts : List Token} (h : .closeBracket ∉ ts) :
    drops ts = List.replicate (ts.count .openBracket) (.bracketDropped .openBracket) := by
  induction ts with
  | nil => rfl
  | cons t rest ih =>
    have hrest := ih fun hm => h (List.mem_cons_of_mem _ hm)
    cases t with
    | binary _ | unary _ => simpa [drops, ofToken?] using hrest
    | openBracket => simpa [drops, ofToken?, List.replicate_succ] using hrest
    | closeBracket => exact absurd List.mem_cons_self h

namespace Reading

theorem program_run_of_none {r : Reading} (h : r.fault = none) (x : Float) :
    r.program.run x = (Postfix.run x (Postfix.word r.lexemes) []).mapError .domain := by
  simp only [program, Program.run, h, Option.isNone_none, if_true]
  cases Postfix.run x (Postfix.word r.lexemes) [] <;> rfl

theorem program_run_of_some {r : Reading} {f : Failure} (h : r.fault = some f) (x : Float) :
    r.program.run x =
      match Postfix.run x (Postfix.convert [] r.lexemes).1 [] with
      | .ok _ => .error f
      | .error fault => .error (.domain fault) := by
  simp only [program, Program.run, h, Option.isNone_some, Bool.false_eq_true, if_false]
  cases Postfix.run x (Postfix.convert [] r.lexemes).1 [] <;> rfl

end Reading

namespace Calculation

variable {s : Settings} {text : List Char} {x : Float}

/-- What is left when all pieces of a text are entered without a fault. -/
theorem enter_ofText_ok {stack : List Float} (log : Log)
    (h : Postfix.run x (Postfix.convert [] (Reading.ofText s text).lexemes).1 [] = .ok stack) :
    (Reading.ofText s text).pieces.forM (fun p => enter (some x) p.lexeme) { log } = .ok ()
      { operands := stack
        operators := (Postfix.convert [] (Reading.ofText s text).lexemes).2
        log } :=
  enterEach_ok (w := { log }) (fun _ => Reading.hasValue_of_mem) List.not_mem_nil h

/-- The end of a calculation whose program leaves `stack`. -/
theorem run_of_program_ok {stack : List Float} (log : Log)
    (h : (Reading.ofText s text).program.run x = .ok stack) :
    run s (some x) text { log } = .ok (stack.headD Number.nan)
      { operands := stack
        operators := []
        log := log ++ (drops (Postfix.convert [] (Reading.ofText s text).lexemes).2 ++
          countRecords stack).toArray } := by
  cases hf : (Reading.ofText s text).fault with
  | some f =>
    rw [Reading.program_run_of_some hf] at h
    split at h <;> cases h
  | none =>
    rw [Reading.program_run_of_none hf, Postfix.word] at h
    cases he : Postfix.run x (Postfix.convert [] (Reading.ofText s text).lexemes).1 [] with
    | error fault => rw [Postfix.run_append_error he] at h; cases h
    | ok st =>
      rw [Postfix.run_append_ok he] at h
      cases hd : Postfix.run x
          ((Postfix.convert [] (Reading.ofText s text).lexemes).2.filterMap ofToken?) st with
      | error fault => rw [hd] at h; cases h
      | ok st' =>
        rw [hd] at h
        cases h
        have hall : (Reading.ofText s text).enter (some x) { log } = _ :=
          bind_ok (enter_ofText_ok log he)
        rw [hf] at hall
        rw [Reading.run_eq, bind_ok hall]
        exact finish_ok hd

/-- The end of a calculation whose program fails. -/
theorem run_of_program_error {f : Failure} (log : Log)
    (h : (Reading.ofText s text).program.run x = .error f) :
    ∃ w done, run s (some x) text { log } = .error f w ∧
      done <+: (Postfix.convert [] (Reading.ofText s text).lexemes).2 ∧
      w.log = log ++ (drops done).toArray := by
  rw [Reading.run_eq]
  cases he : Postfix.run x (Postfix.convert [] (Reading.ofText s text).lexemes).1 [] with
  | error fault =>
    -- a fault while the pieces are entered ends the calculation and the program alike
    have hf : f = .domain fault := by
      cases hf : (Reading.ofText s text).fault with
      | some f' =>
        rw [Reading.program_run_of_some hf, he] at h
        exact (Except.error.inj h).symm
      | none =>
        rw [Reading.program_run_of_none hf, Postfix.word,
          Postfix.run_append_error he] at h
        exact (Except.error.inj h).symm
    have hv : ∀ p ∈ (Reading.ofText s text).pieces, p.lexeme.HasValue := fun _ =>
      Reading.hasValue_of_mem
    obtain ⟨w, hw, hlog⟩ := enterEach_error (w := { log }) hv List.not_mem_nil he
    exact ⟨w, [], hf ▸ bind_error (bind_error hw), List.nil_prefix, by simp [hlog, drops]⟩
  | ok st =>
    have hall : (Reading.ofText s text).enter (some x) { log } = _ :=
      bind_ok (enter_ofText_ok log he)
    cases hf : (Reading.ofText s text).fault with
    | some f' =>
      rw [Reading.program_run_of_some hf, he] at h
      rw [hf] at hall
      cases h
      exact ⟨_, [], bind_error hall, List.nil_prefix, by simp [drops]⟩
    | none =>
      rw [Reading.program_run_of_none hf, Postfix.word, Postfix.run_append_ok he] at h
      cases hd : Postfix.run x
          ((Postfix.convert [] (Reading.ofText s text).lexemes).2.filterMap ofToken?) st with
      | ok st' => rw [hd] at h; cases h
      | error fault =>
        rw [hd] at h
        cases h
        rw [hf] at hall
        obtain ⟨w, done, hdone, hw, hlog⟩ := finish_error (w := ⟨st, _, log⟩) hd
        exact ⟨w, done, (bind_ok hall).trans hw, hdone, hlog⟩

end Calculation

theorem evaluate_of_ne {s : Settings} {e : String} (h : e ≠ "") (x? : Option Float) :
    evaluate s e x? = (Calculation.run s x? e.toList).logged := by
  rw [evaluate, if_neg (by simpa using h)]

/-- A value is the top of the stack that the word of the whole text leaves. -/
theorem exists_stack_of_evaluate_eq_ok {s : Settings} {e : String} {x v : Float} {log log' : Log}
    (he : e ≠ "") (h : evaluate s e (some x) log = .ok v log') :
    ∃ stack, (Reading.ofText s e.toList).fault = none ∧
      Postfix.run x (Postfix.word (Reading.ofText s e.toList).lexemes) [] = .ok stack ∧
      v = stack.headD Number.nan ∧
      log' = log ++ (drops (Postfix.convert [] (Reading.ofText s e.toList).lexemes).2 ++
        countRecords stack).toArray := by
  rw [evaluate_of_ne he, Calculation.logged] at h
  cases hrun : (Reading.ofText s e.toList).program.run x with
  | error f =>
    obtain ⟨w, done, hw, -⟩ := Calculation.run_of_program_error log hrun
    rw [hw] at h
    cases h
  | ok stack =>
    rw [Calculation.run_of_program_ok log hrun] at h
    cases h
    cases hf : (Reading.ofText s e.toList).fault with
    | some f =>
      rw [Reading.program_run_of_some hf] at hrun
      split at hrun <;> cases hrun
    | none =>
      rw [Reading.program_run_of_none hf] at hrun
      cases hword : Postfix.run x (Postfix.word (Reading.ofText s e.toList).lexemes) [] with
      | error fault => rw [hword] at hrun; cases hrun
      | ok stack' =>
        rw [hword] at hrun
        cases hrun
        exact ⟨stack, rfl, rfl, rfl, rfl⟩

end InfixCalculator
